import Mathlib.Data.List.Induction
import Mathlib.Data.Nat.Init

/-!
# Greedy framing of a stream

Symbols are skipped up to one that starts a frame; it is taken with those
behind it, as many as a frame has, whatever they are. `parse` says so for a
stream as a whole, `feed` for one symbol at a time.
-/

set_option autoImplicit false

structure GreedyFraming (Symbol : Type*) where
  sync : Symbol → Bool
  size : Nat
  positive : 0 < size

structure Framed (Symbol : Type*) where
  frames : List (List Symbol)
  current : List Symbol
  skipped : Nat

namespace GreedyFraming

variable {Symbol : Type*}

/-- The stream from the first symbol on that starts a frame. -/
def fromSync (framing : GreedyFraming Symbol) (stream : List Symbol) : List Symbol :=
  stream.dropWhile fun symbol => !framing.sync symbol

theorem from_sync_length (framing : GreedyFraming Symbol) (stream : List Symbol) :
    (framing.fromSync stream).length ≤ stream.length :=
  (List.dropWhile_suffix _).length_le

theorem from_sync_head {framing : GreedyFraming Symbol} {stream rest : List Symbol} {first : Symbol}
    (dropped : framing.fromSync stream = first :: rest) : framing.sync first = true := by
  have head := List.head?_dropWhile_not (fun symbol => !framing.sync symbol) stream
  rw [fromSync] at dropped
  rw [dropped] at head
  simpa using head

theorem from_sync_append_singleton (framing : GreedyFraming Symbol) (stream : List Symbol)
    (symbol : Symbol) :
    framing.fromSync (stream ++ [symbol]) =
      if framing.fromSync stream = [] ∧ framing.sync symbol = false then []
      else framing.fromSync stream ++ [symbol] := by
  rw [fromSync, List.dropWhile_append, ← fromSync]
  cases framing.fromSync stream with
  | nil => cases sync : framing.sync symbol <;> simp [sync]
  | cons first rest => simp

def parse (framing : GreedyFraming Symbol) (stream : List Symbol) : Framed Symbol :=
  if (framing.fromSync stream).length < framing.size then
    { frames := []
      current := framing.fromSync stream
      skipped := stream.length - (framing.fromSync stream).length }
  else
    let later := parse framing ((framing.fromSync stream).drop framing.size)
    { frames := (framing.fromSync stream).take framing.size :: later.frames
      current := later.current
      skipped := stream.length - (framing.fromSync stream).length + later.skipped }
termination_by stream.length
decreasing_by
  have positive := framing.positive
  have shorter := framing.from_sync_length stream
  rw [List.length_drop]
  omega

def feed (framing : GreedyFraming Symbol) (framed : Framed Symbol) (symbol : Symbol) :
    Framed Symbol :=
  if framed.current.isEmpty && !framing.sync symbol then
    { framed with skipped := framed.skipped + 1 }
  else if framed.current.length + 1 = framing.size then
    { framed with frames := framed.frames ++ [framed.current ++ [symbol]], current := [] }
  else { framed with current := framed.current ++ [symbol] }

section parse

variable {framing : GreedyFraming Symbol} {stream rest : List Symbol}

theorem parse_short (dropped : framing.fromSync stream = rest)
    (short : rest.length < framing.size) :
    framing.parse stream = ⟨[], rest, stream.length - rest.length⟩ := by
  subst dropped
  rw [parse, if_pos short]

theorem parse_long (dropped : framing.fromSync stream = rest)
    (long : framing.size ≤ rest.length) :
    framing.parse stream =
      ⟨rest.take framing.size :: (framing.parse (rest.drop framing.size)).frames,
        (framing.parse (rest.drop framing.size)).current,
        stream.length - rest.length + (framing.parse (rest.drop framing.size)).skipped⟩ := by
  subst dropped
  rw [parse, if_neg (Nat.not_lt.mpr long)]

theorem parse_nil (framing : GreedyFraming Symbol) : framing.parse [] = ⟨[], [], 0⟩ :=
  parse_short rfl framing.positive

/-- What is taken as a frame has the size of one and starts like one. -/
theorem parse_frames {frame : List Symbol} (member : frame ∈ (framing.parse stream).frames) :
    frame.length = framing.size ∧ ∃ first ∈ frame.head?, framing.sync first = true := by
  have positive := framing.positive
  induction length : stream.length using Nat.strong_induction_on generalizing stream with
  | _ n induction =>
      obtain ⟨rest, dropped⟩ : ∃ rest, framing.fromSync stream = rest := ⟨_, rfl⟩
      have shorter := framing.from_sync_length stream
      by_cases short : rest.length < framing.size
      · rw [parse_short dropped short] at member
        cases member
      have long := Nat.le_of_not_lt short
      rw [parse_long dropped long] at member
      rw [dropped] at shorter
      rcases List.mem_cons.mp member with rfl | later
      · refine ⟨List.length_take_of_le long, ?_⟩
        cases rest with
        | nil => exact absurd positive short
        | cons first others =>
            refine ⟨first, ?_, from_sync_head dropped⟩
            rw [List.head?_take, if_neg (Nat.ne_of_gt positive)]
            rfl
      · exact induction _ (by rw [List.length_drop]; omega) later rfl

end parse

/-- The parse of a longer stream is the parse of the shorter one, carried on. -/
theorem parse_append_singleton (framing : GreedyFraming Symbol) (stream : List Symbol)
    (symbol : Symbol) :
    framing.parse (stream ++ [symbol]) = framing.feed (framing.parse stream) symbol := by
  have positive := framing.positive
  induction length : stream.length using Nat.strong_induction_on generalizing stream with
  | _ n induction =>
      obtain ⟨rest, dropped⟩ : ∃ rest, framing.fromSync stream = rest := ⟨_, rfl⟩
      have shorter := framing.from_sync_length stream
      have behind := framing.from_sync_append_singleton stream symbol
      have longer : (stream ++ [symbol]).length = stream.length + 1 := List.length_append
      have grown : (rest ++ [symbol]).length = rest.length + 1 := List.length_append
      rw [dropped] at shorter behind
      by_cases skips : rest = [] ∧ framing.sync symbol = false
      · rw [if_pos skips] at behind
        obtain ⟨rfl, unsynced⟩ := skips
        rw [parse_short behind positive, parse_short dropped positive, longer, feed, unsynced]
        rfl
      rw [if_neg skips] at behind
      by_cases short : rest.length < framing.size
      · have taken : ¬(rest.isEmpty && !framing.sync symbol) = true := by
          intro both
          obtain ⟨empty, unsynced⟩ := Bool.and_eq_true_iff.mp both
          exact skips ⟨List.isEmpty_iff.mp empty, by simpa using unsynced⟩
        rw [parse_short dropped short, feed, if_neg taken]
        by_cases last : rest.length + 1 = framing.size
        · rw [if_pos last, parse_long behind (by omega), List.take_of_length_le (by omega),
            List.drop_of_length_le (by omega), parse_nil, grown, longer, Nat.add_sub_add_right]
          rfl
        · rw [if_neg last, parse_short behind (by omega), grown, longer, Nat.add_sub_add_right]
      · have long := Nat.le_of_not_lt short
        have later := induction (rest.drop framing.size).length
          (by rw [List.length_drop]; omega) _ rfl
        rw [parse_long dropped long, parse_long behind (by omega),
          List.take_append_of_le_length long, List.drop_append_of_le_length long, later, grown,
          longer, Nat.add_sub_add_right]
        unfold feed
        dsimp only
        split_ifs <;> simp [Nat.add_assoc]

end GreedyFraming
