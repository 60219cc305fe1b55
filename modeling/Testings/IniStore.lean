import Testings.IniStreamConfig
import Mathlib.Data.List.Infix

/-!
# What the INI store holds

The accepted assignments of a chunk are read off its lines one by one, with the
header that stands last before each. `parse` applies them to the store in their
order, so the last accepted assignment to a key decides it.
-/

set_option autoImplicit false

namespace Testings.IniStream

def newline : QChar := chr '\n'

/-- The section that a line opens. -/
def header? (qt : QtText) (line : QString) : Option QString :=
  let s := trimmed line
  if isHeader s then some (headerName qt s) else none

/-- The section that the lines of a chunk leave open. -/
def openSection (qt : QtText) (lines : List QString) : QString :=
  ((lines.filterMap (header? qt)).getLast?).getD []

/-- Section and key are normalised, the value is trimmed. -/
structure Assignment where
  sectionName : QString
  key : QString
  val : QString
  deriving DecidableEq

/-- The assignment that a line makes in a section. -/
def assignment? (qt : QtText) (sectionName line : QString) : Option Assignment :=
  let s := trimmed line
  if s = [] ∨ isComment s ∨ isHeader s ∨ sectionName = [] then none
  else
    (indexOf s '=').map fun eq =>
      { sectionName := sectionName
        key := normalize qt (trimmed (left s eq))
        val := trimmed (s.drop (eq + 1)) }

/-- The assignments that `parse` accepts among the lines of a chunk. -/
def accepted (qt : QtText) (lines : List QString) : List Assignment :=
  (lines.inits.zip lines).filterMap fun (before, line) =>
    assignment? qt (openSection qt before) line

def acceptedIn (qt : QtText) (chunk : List Byte) : List Assignment :=
  accepted qt (splitLines (fromUtf8 qt chunk))

def lastAssignment (sectionName key : QString) (assignments : List Assignment) :
    Option Assignment :=
  (assignments.filter fun a => a.sectionName = sectionName ∧ a.key = key).getLast?

def Assignment.write (a : Assignment) : LastWriter.Write (QString × QString) QVariant :=
  ((a.sectionName, a.key), assigned a.val)

theorem zip_inits_concat {Item : Type*} (items : List Item) (last : Item) :
    (items ++ [last]).inits.zip (items ++ [last]) = items.inits.zip items ++ [(items, last)] := by
  induction items with
  | nil => rfl
  | cons item rest induction =>
      simp only [List.cons_append, List.inits_cons, List.zip_cons_cons, List.zip_map_left,
        induction, List.map_append]
      rfl

theorem accepted_concat (qt : QtText) (lines : List QString) (line : QString) :
    accepted qt (lines ++ [line]) =
      accepted qt lines ++ (assignment? qt (openSection qt lines) line).toList := by
  rw [accepted, zip_inits_concat, List.filterMap_append]
  congr 1

theorem open_section_concat (qt : QtText) (lines : List QString) (line : QString) :
    openSection qt (lines ++ [line]) = (header? qt line).getD (openSection qt lines) := by
  rw [openSection, List.filterMap_append, List.getLast?_append]
  cases found : header? qt line with
  | none => simp [found, openSection]
  | some name => simp [found]

/-- A header is neither blank nor a comment. -/
theorem header_text {s : QString} (header : isHeader s) : s ≠ [] ∧ isComment s = false := by
  cases s with
  | nil => simp [isHeader, startsWith] at header
  | cons first rest =>
      simp only [isHeader, startsWith, List.head?_cons, Bool.and_eq_true, beq_iff_eq,
        Option.some.injEq] at header
      refine ⟨List.cons_ne_nil _ _, ?_⟩
      rw [isComment, startsWith, startsWith, List.head?_cons, header.1]
      decide

theorem header_some {qt : QtText} {line name : QString} (opens : header? qt line = some name) :
    isHeader (trimmed line) = true ∧ headerName qt (trimmed line) = name := by
  simpa [header?] using opens

theorem parse_line_header {qt : QtText} {line name : QString} (opens : header? qt line = some name)
    (config : IniStreamConfig) (current : QString) :
    parseLine qt (config, current) line = (config, name) := by
  obtain ⟨header, named⟩ := header_some opens
  have text := header_text header
  simp [parseLine, header, text, named]

theorem parse_line_assignment {qt : QtText} {line current : QString} {a : Assignment}
    (assigns : assignment? qt current line = some a) (config : IniStreamConfig) :
    parseLine qt (config, current) line =
      (⟨config.mData.insert a.sectionName (assign (config.mData.getD a.sectionName ∅) a.key a.val)⟩,
        current) := by
  simp only [assignment?] at assigns
  split at assigns
  next => cases assigns
  next accepted =>
      obtain ⟨eq, found, rfl⟩ := Option.map_eq_some_iff.mp assigns
      simp only [not_or] at accepted
      simp [parseLine, accepted, found]

theorem parse_line_skips {qt : QtText} {line current : QString} (closed : header? qt line = none)
    (nothing : assignment? qt current line = none) (config : IniStreamConfig) :
    parseLine qt (config, current) line = (config, current) := by
  have noHeader : isHeader (trimmed line) = false := by
    by_contra header
    simp [header?, header] at closed
  simp only [assignment?] at nothing
  split at nothing
  next refused =>
      rcases refused with blank | comment | header | outside
      · simp [parseLine, blank]
      · simp [parseLine, comment]
      · rw [noHeader] at header
        cases header
      · subst outside
        simp only [parseLine, noHeader]
        split
        · rfl
        · cases indexOf (trimmed line) '=' with
          | none => rfl
          | some eq => rfl
  next accepted =>
      simp only [not_or] at accepted
      have noEquals := Option.map_eq_none_iff.mp nothing
      simp [parseLine, accepted, noEquals]

theorem header_no_assignment {qt : QtText} {line name : QString}
    (opens : header? qt line = some name) (sectionName : QString) :
    assignment? qt sectionName line = none := by
  simp [assignment?, header_some opens]

/-- What one line does to the store and to the section it stands in. -/
theorem parse_line_effect (qt : QtText) (config : IniStreamConfig) (current line : QString) :
    held (parseLine qt (config, current) line).1 =
        LastWriter.applyAll (held config)
          ((assignment? qt current line).toList.map Assignment.write) ∧
      (parseLine qt (config, current) line).2 = (header? qt line).getD current := by
  cases opens : header? qt line with
  | some name =>
      rw [parse_line_header opens, header_no_assignment opens]
      exact ⟨rfl, rfl⟩
  | none =>
      cases assigns : assignment? qt current line with
      | none =>
          rw [parse_line_skips opens assigns]
          exact ⟨rfl, rfl⟩
      | some a =>
          rw [parse_line_assignment assigns]
          exact ⟨held_assign config a.sectionName a.key a.val, rfl⟩

theorem parse_lines_effect (qt : QtText) (config : IniStreamConfig) (lines : List QString) :
    held (parseLines qt config lines).1 =
        LastWriter.applyAll (held config) ((accepted qt lines).map Assignment.write) ∧
      (parseLines qt config lines).2 = openSection qt lines := by
  induction lines using List.reverseRecOn with
  | nil => exact ⟨rfl, rfl⟩
  | append_singleton lines line induction =>
      have unfolded : parseLines qt config (lines ++ [line]) =
          parseLine qt (parseLines qt config lines) line := by
        rw [parseLines, List.foldl_append]
        rfl
      have state : parseLines qt config lines =
          ((parseLines qt config lines).1, openSection qt lines) := Prod.ext rfl induction.2
      rw [unfolded, state, accepted_concat, open_section_concat, List.map_append,
        LastWriter.apply_all_append, ← induction.1]
      apply parse_line_effect

/-- `parse` applies the accepted assignments of the chunk to the store. -/
theorem parse_effect (qt : QtText) (config : IniStreamConfig) (chunk : List Byte) :
    held (parse qt config chunk) =
      LastWriter.applyAll (held config) ((acceptedIn qt chunk).map Assignment.write) :=
  (parse_lines_effect qt config _).1

def parseAll (qt : QtText) (config : IniStreamConfig) (chunks : List (List Byte)) :
    IniStreamConfig :=
  chunks.foldl (parse qt) config

theorem parse_all_effect (qt : QtText) (config : IniStreamConfig) (chunks : List (List Byte)) :
    held (parseAll qt config chunks) =
      LastWriter.applyAll (held config)
        ((chunks.flatMap (acceptedIn qt)).map Assignment.write) := by
  induction chunks generalizing config with
  | nil => rfl
  | cons chunk rest induction =>
      have first : parseAll qt config (chunk :: rest) =
          parseAll qt (parse qt config chunk) rest := rfl
      rw [first, induction, parse_effect, List.flatMap_cons, List.map_append,
        LastWriter.apply_all_append]

theorem last_write_assignment (sectionName key : QString) (assignments : List Assignment) :
    LastWriter.lastWrite (sectionName, key) (assignments.map Assignment.write) =
      (lastAssignment sectionName key assignments).map Assignment.write := by
  rw [LastWriter.lastWrite, List.filter_map, List.getLast?_map, lastAssignment]
  congr 3
  funext a
  simp [Assignment.write]

/-- The last accepted assignment to a key decides what the store holds for it. -/
theorem held_parse_all (qt : QtText) (chunks : List (List Byte)) (sectionName key : QString) :
    held (parseAll qt {} chunks) (sectionName, key) =
      (lastAssignment sectionName key (chunks.flatMap (acceptedIn qt))).bind fun a =>
        assigned a.val := by
  rw [parse_all_effect, LastWriter.apply_all_lookup, last_write_assignment, held_empty]
  cases lastAssignment sectionName key (chunks.flatMap (acceptedIn qt)) with
  | none => rfl
  | some a => rfl

/-- The conversion of bytes that stand behind the byte order mark: an ASCII byte
is a character of its own wherever it stands, nothing else gives a NUL, and a
further mark is a character like any other. -/
structure Utf8Decoder (decode : List Byte → QString) : Prop where
  empty : decode [] = []
  ascii : ∀ before byte after, byte < 0x80 →
    decode (before ++ byte :: after) = decode before ++ byte.setWidth 16 :: decode after
  nul : ∀ bytes, 0 ∈ decode bytes → 0 ∈ bytes
  mark : ∀ rest, decode (byteOrderMark ++ rest) = 0xFEFF :: decode rest

theorem accepted_header {qt : QtText} {line name : QString}
    (opens : header? qt line = some name) : accepted qt [line] = [] := by
  simp [accepted, header_no_assignment opens]

theorem split_lines_append (before after : QString) :
    splitLines (before ++ newline :: after) = splitLines before ++ splitLines after := by
  rw [splitLines, newline, List.splitOn_append_cons_self, List.filter_append]
  rfl

theorem split_lines_terminated (text : QString) :
    splitLines (text ++ [newline]) = splitLines text := by
  rw [split_lines_append]
  simp [splitLines]

theorem trimmed_cons {c : QChar} (visible : isSpace c = false) (rest : QString) :
    ∃ kept, trimmed (c :: rest) = c :: kept := by
  have kept : (c :: rest).rdropWhile isSpace ≠ [] := by
    intro blank
    have all := List.rdropWhile_eq_nil_iff.mp blank c List.mem_cons_self
    rw [visible] at all
    cases all
  rw [trimmed, List.dropWhile_cons_of_neg (by simp [visible])]
  obtain ⟨tail, whole⟩ := List.rdropWhile_prefix isSpace (l := c :: rest)
  cases found : (c :: rest).rdropWhile isSpace with
  | nil => exact absurd found kept
  | cons head tail =>
      rw [found] at whole
      cases whole
      exact ⟨_, rfl⟩

theorem assigned_iff {val v : QString} :
    assigned val = some (.string v) ↔ val ≠ [] ∧ v = unquote val := by
  cases val with
  | nil => simp [assigned]
  | cons first rest =>
      rw [assigned, if_neg (by simp), Option.some.injEq, QVariant.string.injEq]
      exact ⟨fun same => ⟨List.cons_ne_nil _ _, same.symm⟩, fun same => same.2.symm⟩

def ascii (text : String) : List Byte := text.toList.map fun c => BitVec.ofNat 8 c.toNat

def asciiChar (byte : Byte) : Option QChar :=
  if byte < 0x80 then some (byte.setWidth 16)
  else if byte = 0xBF then some 0xFEFF
  else if byte = 0xEF ∨ byte = 0xBB then none
  else some 0xFFFD

def asciiLower (c : QChar) : QChar := if chr 'A' ≤ c ∧ c ≤ chr 'Z' then c + 0x20 else c

/-- Qt on ASCII text and on the byte order mark. -/
def asciiText : QtText where
  decode := List.filterMap asciiChar
  toLower := List.map asciiLower

theorem ascii_decoder : Utf8Decoder asciiText.decode where
  empty := rfl
  ascii := by
    intro before byte after small
    have itself : asciiChar byte = some (byte.setWidth 16) := if_pos small
    dsimp only [asciiText]
    rw [List.filterMap_append, List.filterMap_cons_some itself]
  nul := by
    intro bytes member
    obtain ⟨byte, member, read⟩ := List.mem_filterMap.mp member
    have zero : ∀ byte : Byte, asciiChar byte = some 0 → byte = 0 := by decide +kernel
    rwa [← zero byte read]
  mark := by
    intro rest
    rfl

end Testings.IniStream
