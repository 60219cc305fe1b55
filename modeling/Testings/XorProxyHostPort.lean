import Testings.CStrings
import Testings.XorProxyKey

/-!
# Host and port on the command line

`parse_hostport` of `udp_xor_proxy.py` and of the three C proxies, which have the
same one. Python splits at the last colon and checks the digits; C splits at the
first colon and puts the terminator where the host ends, whatever it has copied.
-/

set_option autoImplicit false

namespace Testings.XorProxy

open CStrings

def colon : BitVec 8 := 0x3A

def defaultHost (isRemote : Bool) : Chars :=
  if isRemote then [0x31, 0x32, 0x37, 0x2E, 0x30, 0x2E, 0x30, 0x2E, 0x31]
  else [0x30, 0x2E, 0x30, 0x2E, 0x30, 0x2E, 0x30]

inductive ArgumentTypeError where
  | portMustBeDigits
  | hostCannotBeEmpty
  | mustBePortOrHostPort
  deriving DecidableEq

/-- `parse_hostport` of `udp_xor_proxy.py`; digits are the ASCII ones. -/
def parseHostport (s : Chars) : Except ArgumentTypeError (Option Chars × Nat) :=
  if isDigits s then .ok (none, decimal s)
  else
    match rsplit colon s with
    | some (host, portS) =>
        if isDigits portS = false then .error .portMustBeDigits
        else if host = [] then .error .hostCannotBeEmpty
        else .ok (some host, decimal portS)
    | none => .error .mustBePortOrHostPort

/-- `parse_hostport` of the C proxies on the buffer `host`. -/
def parseHostportC (s host : Chars) (isRemote : Bool) : Except CStrings.Fault (Chars × Int) :=
  match strchr s colon with
  | some len => do
      let host ← if 0 < len then strncpy host s len else strcpy host (defaultHost isRemote)
      let host ← store host len 0
      pure (host, atoi (s.drop (len + 1)))
  | none =>
      if isDigit (s.headD 0) then do
        let host ← strcpy host (defaultHost isRemote)
        pure (host, atoi s)
      else .error .exited

def hostSize : Nat := 64

inductive Accepted : Chars → Option Chars → Nat → Prop where
  | port {s : Chars} (digits : isDigits s = true) : Accepted s none (decimal s)
  | hostPort {host portS : Chars} (nonempty : host ≠ []) (digits : isDigits portS = true) :
      Accepted (host ++ colon :: portS) (some host) (decimal portS)

theorem colon_no_digit {s : Chars} (digits : isDigits s = true) : colon ∉ s := by
  intro member
  exact absurd ((is_digits_iff.mp digits).2 colon member) (by decide)

theorem parse_hostport_ok {s : Chars} {host : Option Chars} {port : Nat} :
    parseHostport s = .ok (host, port) ↔ Accepted s host port := by
  constructor
  · intro accepted
    unfold parseHostport at accepted
    split_ifs at accepted with digits
    · cases accepted
      exact .port digits
    · cases split : rsplit colon s with
      | none =>
          rw [split] at accepted
          cases accepted
      | some parts =>
          rw [split] at accepted
          dsimp only at accepted
          split_ifs at accepted with port empty
          cases accepted
          obtain ⟨rfl, _⟩ := rsplit_some split
          exact .hostPort empty (Bool.not_eq_false _ ▸ port)
  · intro accepted
    cases accepted with
    | port digits => exact if_pos digits
    | @hostPort host portS nonempty digits =>
        have others : ¬isDigits (host ++ colon :: portS) = true := fun all =>
          colon_no_digit all (List.mem_append_right _ List.mem_cons_self)
        simp only [parseHostport, if_neg others, rsplit_append (colon_no_digit digits), digits,
          Bool.true_eq_false, if_false, if_neg nonempty]

section c

variable {s host : Chars} {isRemote : Bool}

theorem default_host_fits (isRemote : Bool) : (defaultHost isRemote).length < hostSize := by
  cases isRemote <;> decide

theorem default_host_no_nul (isRemote : Bool) : ∀ c ∈ defaultHost isRemote, c ≠ 0 := by
  cases isRemote <;> decide

theorem parse_port_c (size : host.length = hostSize) (digits : isDigits s = true) :
    ∃ buffer, parseHostportC s host isRemote = .ok (buffer, decimal s) ∧
      contents buffer = defaultHost isRemote := by
  have first : isDigit (s.headD 0) = true := by
    obtain ⟨nonempty, all⟩ := is_digits_iff.mp digits
    cases s with
    | nil => exact absurd rfl nonempty
    | cons c rest => exact all c List.mem_cons_self
  have copied := strcpy_inside (size ▸ default_host_fits isRemote)
  refine ⟨_, ?_, contents_terminated (default_host_no_nul isRemote)
    (host.drop ((defaultHost isRemote).length + 1))⟩
  simp only [parseHostportC, strchr_none (colon_no_digit digits), if_pos first, copied,
    atoi_digits digits]
  rfl

/-- Without a host the default is copied, and the terminator is put over its first byte. -/
theorem parse_empty_host_c (isRemote : Bool) (size : host.length = hostSize)
    (found : strchr s colon = some 0) :
    ∃ buffer, parseHostportC s host isRemote = .ok (buffer, atoi (s.drop 1)) ∧
      contents buffer = [] := by
  have copied := strcpy_inside (size ▸ default_host_fits isRemote)
  have written : 0 < (defaultHost isRemote ++ 0 ::
      host.drop ((defaultHost isRemote).length + 1)).length := by
    rw [List.length_append, List.length_cons]
    omega
  refine ⟨_, ?_, contents_emptied
    (defaultHost isRemote ++ 0 :: host.drop ((defaultHost isRemote).length + 1))⟩
  simp only [parseHostportC, found, if_neg (Nat.lt_irrefl 0), copied]
  change (do let host ← store _ 0 0
             pure (host, atoi (s.drop 1))) = _
  rw [store_inside written]
  rfl

theorem parse_host_c (isRemote : Bool) (size : host.length = hostSize)
    (noNul : ∀ c ∈ s, c ≠ 0) {len : Nat} (found : strchr s colon = some len)
    (room : len < hostSize) :
    ∃ buffer, parseHostportC s host isRemote = .ok (buffer, atoi (s.drop (len + 1))) ∧
      contents buffer = s.take len := by
  cases len with
  | zero => exact parse_empty_host_c isRemote size found
  | succ len =>
      obtain ⟨inside, _, _⟩ := strchr_some found
      have length : (s.take (len + 1)).length = len + 1 :=
        List.length_take_of_le (Nat.le_of_lt inside)
      have copied := strncpy_inside host (Nat.le_of_lt inside) (by omega)
      have stored : store (s.take (len + 1) ++ host.drop (s.take (len + 1)).length)
          (s.take (len + 1)).length 0 = _ := store_terminator (by omega)
      rw [length] at stored
      refine ⟨_, ?_, contents_terminated (fun c member => noNul c (List.mem_of_mem_take member))
        (host.drop (len + 1 + 1))⟩
      simp only [parseHostportC, found, if_pos (Nat.succ_pos len), copied]
      change (do let host ← store (s.take (len + 1) ++ host.drop (len + 1)) (len + 1) 0
                 pure (host, atoi (s.drop (len + 1 + 1)))) = _
      rw [stored]
      rfl

theorem parse_long_host_c (size : host.length = hostSize) {len : Nat}
    (found : strchr s colon = some len) (long : hostSize ≤ len) :
    parseHostportC s host isRemote = .error .outOfBounds := by
  have positive : 0 < len := Nat.lt_of_lt_of_le (by decide) long
  obtain ⟨inside, _, _⟩ := strchr_some found
  by_cases exact : len = hostSize
  · -- the copy fills the buffer and the terminator is behind it
    have copied := strncpy_inside host (Nat.le_of_lt inside) (by omega)
    simp only [parseHostportC, found, if_pos positive, copied]
    change (do let host ← store (s.take len ++ host.drop len) len 0
               pure (host, atoi (s.drop (len + 1)))) = _
    rw [store_outside]
    · rfl
    · rw [List.length_append, List.length_take, List.length_drop]
      omega
  · have outside := strncpy_outside s (show host.length < len by omega)
    simp only [parseHostportC, found, if_pos positive, outside]
    rfl

end c

/-- On what Python accepts with a port that fits, C writes inside the buffer and yields
the same host and port, and on a port behind a colon it yields the default host. -/
structure ParsedAlike (s host : Chars) (isRemote : Bool) : Prop where
  agree : ∀ accepted port, parseHostport s = .ok (accepted, port) → port ≤ 65535 →
    ∃ buffer, parseHostportC s host isRemote = .ok (buffer, port) ∧
      contents buffer = accepted.getD (defaultHost isRemote)
  default : ∀ portS, s = colon :: portS → isDigits portS = true →
    ∃ buffer port, parseHostportC s host isRemote = .ok (buffer, port) ∧
      contents buffer = defaultHost isRemote

def Documented (s : Chars) : Prop :=
  (∃ accepted port, parseHostport s = .ok (accepted, port) ∧ port ≤ 65535) ∨
    ∃ portS, s = colon :: portS ∧ isDigits portS = true

/-- If there is a colon, it is the only one, and 1 to 63 bytes stand before it. -/
def OneColonInside (s : Chars) : Prop :=
  ∀ len, strchr s colon = some len → 0 < len ∧ len < hostSize ∧ colon ∉ s.drop (len + 1)

section agree

variable {s host : Chars} {isRemote : Bool}

theorem c_host_no_colon (size : host.length = hostSize) (noNul : ∀ c ∈ s, c ≠ 0) {len : Nat}
    (found : strchr s colon = some len) {buffer : Chars} {port : Int}
    (returned : parseHostportC s host isRemote = .ok (buffer, port)) :
    contents buffer = s.take len ∧ colon ∉ contents buffer := by
  by_cases room : len < hostSize
  · obtain ⟨filled, parsed, taken⟩ := parse_host_c isRemote size noNul found room
    rw [parsed] at returned
    cases returned
    rw [taken]
    exact ⟨rfl, (strchr_some found).2.2⟩
  · rw [parse_long_host_c size found (by omega)] at returned
    cases returned

theorem port_alike (isRemote : Bool) (size : host.length = hostSize) (digits : isDigits s = true) :
    ParsedAlike s host isRemote ∧ OneColonInside s := by
  have plain := colon_no_digit digits
  refine ⟨⟨?_, ?_⟩, ?_⟩
  · intro accepted port parsed _
    have parsed := parsed.symm.trans (parse_hostport_ok.mpr (.port digits))
    cases parsed
    exact parse_port_c size digits
  · rintro portS rfl _
    exact absurd List.mem_cons_self plain
  · intro len found
    rw [strchr_none plain] at found
    cases found

theorem colon_host_not_alike (isRemote : Bool) (size : host.length = hostSize)
    {name portS : Chars} (noNul : ∀ c ∈ name ++ colon :: portS, c ≠ 0) (inName : colon ∈ name)
    (digits : isDigits portS = true) (port : decimal portS ≤ 65535) :
    ¬ParsedAlike (name ++ colon :: portS) host isRemote ∧
      ¬OneColonInside (name ++ colon :: portS) := by
  have parsed : parseHostport (name ++ colon :: portS) = .ok (some name, decimal portS) :=
    parse_hostport_ok.mpr (.hostPort (List.ne_nil_of_mem inName) digits)
  obtain ⟨len, before, found⟩ := strchr_within inName (colon :: portS)
  constructor
  · intro alike
    obtain ⟨buffer, returned, same⟩ := alike.agree _ _ parsed port
    have without := (c_host_no_colon size noNul found returned).2
    rw [same] at without
    exact without inName
  · intro once
    have behind : colon ∈ (name ++ colon :: portS).drop (len + 1) := by
      rw [List.drop_append_of_le_length before]
      exact List.mem_append_right _ List.mem_cons_self
    exact (once len found).2.2 behind

theorem host_port_alike (isRemote : Bool) (size : host.length = hostSize) {name portS : Chars}
    (noNul : ∀ c ∈ name ++ colon :: portS, c ≠ 0) (nonempty : name ≠ []) (single : colon ∉ name)
    (digits : isDigits portS = true) (port : decimal portS ≤ 65535) :
    ParsedAlike (name ++ colon :: portS) host isRemote ↔
      OneColonInside (name ++ colon :: portS) := by
  have parsed : parseHostport (name ++ colon :: portS) = .ok (some name, decimal portS) :=
    parse_hostport_ok.mpr (.hostPort nonempty digits)
  have found := strchr_append single portS
  have behind : (name ++ colon :: portS).drop (name.length + 1) = portS := by
    rw [← List.singleton_append, ← List.append_assoc]
    exact List.drop_left' (by rw [List.length_append, List.length_singleton])
  constructor
  · intro alike
    obtain ⟨buffer, returned, _⟩ := alike.agree _ _ parsed port
    intro len again
    obtain rfl : name.length = len := Option.some.inj (found.symm.trans again)
    refine ⟨List.length_pos_iff.mpr nonempty, ?_, ?_⟩
    · by_contra long
      rw [parse_long_host_c size found (by omega)] at returned
      cases returned
    · rw [behind]
      exact colon_no_digit digits
  · intro once
    constructor
    · intro accepted port' again _
      cases parsed.symm.trans again
      obtain ⟨buffer, returned, same⟩ := parse_host_c isRemote size noNul found (once _ found).2.1
      rw [behind, atoi_digits digits] at returned
      rw [List.take_left' rfl] at same
      exact ⟨buffer, returned, same⟩
    · intro portS' same _
      cases name with
      | nil => exact absurd rfl nonempty
      | cons c rest =>
          have head : c = colon := (List.cons.inj same).1
          exact absurd (head ▸ List.mem_cons_self) single

theorem colon_port_not_alike (isRemote : Bool) (size : host.length = hostSize) {portS : Chars}
    (noNul : ∀ c ∈ colon :: portS, c ≠ 0) (digits : isDigits portS = true) :
    ¬ParsedAlike (colon :: portS) host isRemote ∧ ¬OneColonInside (colon :: portS) := by
  have found : strchr (colon :: portS) colon = some 0 :=
    strchr_append (List.not_mem_nil) portS
  constructor
  · intro alike
    obtain ⟨buffer, port, returned, same⟩ := alike.default portS rfl digits
    have emptied := (c_host_no_colon size noNul found returned).1
    rw [same] at emptied
    cases isRemote <;> cases emptied
  · intro once
    exact absurd (once 0 found).1 (Nat.lt_irrefl 0)

end agree

/-- Python and C agree on an argument exactly if there is no colon in it or only one,
behind a host that has room in the buffer. -/
theorem parse_hostport_alike_iff (s : Chars) (noNul : ∀ c ∈ s, c ≠ 0) (host : Chars)
    (size : host.length = hostSize) (isRemote : Bool) (documented : Documented s) :
    ParsedAlike s host isRemote ↔ OneColonInside s := by
  cases documented with
  | inl accepted =>
      obtain ⟨name, port, parsed, bound⟩ := accepted
      cases parse_hostport_ok.mp parsed with
      | port digits =>
          obtain ⟨alike, once⟩ := port_alike isRemote size digits
          exact ⟨fun _ => once, fun _ => alike⟩
      | @hostPort name _ nonempty digits =>
          by_cases inName : colon ∈ name
          · obtain ⟨differ, several⟩ :=
              colon_host_not_alike isRemote size noNul inName digits bound
            exact ⟨fun alike => absurd alike differ, fun once => absurd once several⟩
          · exact host_port_alike isRemote size noNul nonempty inName digits bound
  | inr portOnly =>
      obtain ⟨portS, same, digits⟩ := portOnly
      subst same
      obtain ⟨differ, none⟩ := colon_port_not_alike isRemote size noNul digits
      exact ⟨fun alike => absurd alike differ, fun once => absurd once none⟩

def shortArgument : Chars := [0x68, 0x3A, 0x38, 0x30]

theorem parse_hostport_alike_at_short :
    ParsedAlike shortArgument (List.replicate hostSize 0) true := by
  have documented : Documented shortArgument := .inl ⟨some [0x68], 80, by decide, by decide⟩
  have once : OneColonInside shortArgument := by
    intro len found
    cases found
    decide
  exact (parse_hostport_alike_iff shortArgument (by decide) _ List.length_replicate true
    documented).mpr once

/-- On `:80` the terminator is put over the default host just copied. -/
theorem parse_hostport_empties_default :
    ¬ParsedAlike [0x3A, 0x38, 0x30] (List.replicate hostSize 0) false := by
  intro alike
  obtain ⟨buffer, port, returned, same⟩ := alike.default [0x38, 0x30] rfl (by decide)
  have emptied : parseHostportC [0x3A, 0x38, 0x30] (List.replicate hostSize 0) false =
      .ok ((defaultHost false ++ List.replicate 57 0).set 0 0, 80) := by decide
  rw [emptied] at returned
  cases returned
  exact absurd same (by decide)

end Testings.XorProxy
