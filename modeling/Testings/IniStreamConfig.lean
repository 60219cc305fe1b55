import Testings.LastWriter
import Mathlib.Data.List.DropRight

/-!
# The INI store

`IniStreamConfig` of the INI sample: a map of sections, each a map of keys,
that chunks of INI text add to, change and delete from. A `QString` is its
UTF-16 code units and a `QMap` is the standard library's ordered tree. The
UTF-8 decoder and the Unicode lower-case mapping belong to Qt and are
parameters.
-/

set_option autoImplicit false

namespace Testings.IniStream

abbrev Byte := BitVec 8
abbrev QChar := BitVec 16
abbrev QString := List QChar
abbrev QMap (Value : Type) := Std.TreeMap QString Value

inductive QVariant where
  | invalid
  | string (s : QString)
  deriving DecidableEq

def chr (c : Char) : QChar := BitVec.ofNat 16 c.toNat

/-- `QChar::isSpace`: the separators and the ASCII and Latin-1 blanks. -/
def isSpace (c : QChar) : Bool :=
  c == 0x20 || (0x09 ≤ c && c ≤ 0x0D) || c == 0x85 || c == 0xA0 || c == 0x1680 ||
    (0x2000 ≤ c && c ≤ 0x200A) || c == 0x2028 || c == 0x2029 || c == 0x202F || c == 0x205F ||
    c == 0x3000

def trimmed (s : QString) : QString := (s.dropWhile isSpace).rdropWhile isSpace

def startsWith (s : QString) (c : Char) : Bool := s.head? == some (chr c)

def endsWith (s : QString) (c : Char) : Bool := s.getLast? == some (chr c)

def indexOf (s : QString) (c : Char) : Option Nat := s.idxOf? (chr c)

def left (s : QString) (n : Nat) : QString := s.take n

def mid (s : QString) (position n : Nat) : QString := (s.drop position).take n

/-- What Qt brings. `decode` converts all of its bytes, which stand behind the byte
order mark. -/
structure QtText where
  decode : List Byte → QString
  toLower : QString → QString

def byteOrderMark : List Byte := [0xEF, 0xBB, 0xBF]

def skipByteOrderMark (bytes : List Byte) : List Byte :=
  if byteOrderMark <+: bytes then bytes.drop byteOrderMark.length else bytes

/-- What `qstrnlen` counts. -/
def beforeNul {w : Nat} (s : List (BitVec w)) : List (BitVec w) := s.takeWhile (· != 0)

/-- `QString::fromUtf8` reads a `QByteArray` up to its first NUL. -/
def fromUtf8 (qt : QtText) (chunk : List Byte) : QString :=
  qt.decode (skipByteOrderMark (beforeNul chunk))

/-- `data.split('\n', Qt::SkipEmptyParts)`. -/
def splitLines (data : QString) : List QString :=
  (data.splitOn (chr '\n')).filter fun line => !line.isEmpty

structure IniStreamConfig where
  mData : QMap (QMap QVariant) := ∅

def normalize (qt : QtText) (s : QString) : QString := qt.toLower s

def isComment (s : QString) : Bool := startsWith s ';' || startsWith s '#'

def isHeader (s : QString) : Bool := startsWith s '[' && endsWith s ']'

/-- The name between the brackets of a section header. -/
def headerName (qt : QtText) (s : QString) : QString :=
  normalize qt (trimmed (mid s 1 (s.length - 2)))

def unquote (val : QString) : QString :=
  if 2 ≤ val.length && startsWith val '"' && endsWith val '"' then mid val 1 (val.length - 2)
  else val

/-- What an assignment does to the section `m_data[currentSection]`. -/
def assign (entries : QMap QVariant) (key val : QString) : QMap QVariant :=
  if val.isEmpty then
    if entries.contains key then entries.erase key else entries
  else
    let val := QVariant.string (unquote val)
    match entries[key]? with
    | none => entries.insert key val
    | some held => if held = val then entries else entries.insert key val

/-- The body of the loop of `parse`, with `currentSection`. -/
def parseLine (qt : QtText) (state : IniStreamConfig × QString) (line : QString) :
    IniStreamConfig × QString :=
  let (config, currentSection) := state
  let s := trimmed line
  if s.isEmpty || isComment s then state
  else if isHeader s then (config, headerName qt s)
  else
    match indexOf s '=' with
    | none => state
    | some eq =>
        if currentSection.isEmpty then state
        else
          let key := normalize qt (trimmed (left s eq))
          let val := trimmed (s.drop (eq + 1))
          let entries := config.mData.getD currentSection ∅
          ({ mData := config.mData.insert currentSection (assign entries key val) }, currentSection)

def parseLines (qt : QtText) (config : IniStreamConfig) (lines : List QString) :
    IniStreamConfig × QString :=
  lines.foldl (parseLine qt) (config, [])

def parse (qt : QtText) (config : IniStreamConfig) (chunk : List Byte) : IniStreamConfig :=
  (parseLines qt config (splitLines (fromUtf8 qt chunk))).1

def get (qt : QtText) (config : IniStreamConfig) (sectionName key : QString) (default : QVariant) :
    QVariant :=
  match config.mData[normalize qt sectionName]? with
  | none => default
  | some entries => entries[key]?.getD default

def hasKey (qt : QtText) (config : IniStreamConfig) (sectionName key : QString) : Bool :=
  match config.mData[normalize qt sectionName]? with
  | none => false
  | some entries => entries.contains key

def keys (qt : QtText) (config : IniStreamConfig) (sectionName : QString) : List QString :=
  match config.mData[normalize qt sectionName]? with
  | none => []
  | some entries => entries.keys

section nul

variable {w : Nat} {s : List (BitVec w)}

theorem before_nul_append (absent : 0 ∉ s) (after : List (BitVec w)) :
    beforeNul (s ++ after) = s ++ beforeNul after := by
  apply List.takeWhile_append_of_pos
  intro c member
  rw [bne_iff_ne]
  rintro rfl
  exact absent member

theorem before_nul_whole (absent : 0 ∉ s) : beforeNul s = s := by
  have whole := before_nul_append absent []
  have nothing : beforeNul ([] : List (BitVec w)) = [] := rfl
  rwa [nothing, List.append_nil] at whole

theorem before_nul_absent (s : List (BitVec w)) : 0 ∉ beforeNul s := by
  intro member
  have other := List.mem_takeWhile_imp member
  exact absurd rfl (bne_iff_ne.mp other)

theorem before_nul_front (s : List (BitVec w)) : beforeNul s <+: s := List.takeWhile_prefix _

theorem before_nul_split (present : 0 ∈ s) : ∃ after, s = beforeNul s ++ 0 :: after := by
  have whole := List.takeWhile_append_dropWhile (p := (· != 0)) (l := s)
  cases rest : s.dropWhile (· != 0) with
  | nil =>
      rw [rest, List.append_nil] at whole
      rw [← whole] at present
      exact absurd present (before_nul_absent s)
  | cons c after =>
      have stopped := List.head?_dropWhile_not (· != 0) s
      rw [rest] at stopped whole
      have zero : c = 0 := by simpa using stopped
      exact ⟨after, by rw [← zero]; exact whole.symm⟩

/-- Text behind a NUL makes no difference. -/
theorem before_nul_hides (present : 0 ∈ s) (after : List (BitVec w)) :
    beforeNul (s ++ after) = beforeNul s := by
  obtain ⟨hidden, split⟩ := before_nul_split present
  rw [split, List.append_assoc, before_nul_append (before_nul_absent s),
    before_nul_append (before_nul_absent s)]
  rfl

end nul

def held (config : IniStreamConfig) (cell : QString × QString) : Option QVariant :=
  config.mData[cell.1]?.bind fun entries => entries[cell.2]?

/-- The value an assignment leaves at its key. -/
def assigned (val : QString) : Option QVariant :=
  if val.isEmpty then none else some (.string (unquote val))

theorem assign_lookup (entries : QMap QVariant) (key val other : QString) :
    (assign entries key val)[other]? = if key = other then assigned val else entries[other]? := by
  unfold assign assigned
  cases empty : val.isEmpty with
  | true =>
      cases known : entries.contains key with
      | true => simp [Std.TreeMap.getElem?_erase]
      | false =>
          have absent := Std.TreeMap.getElem?_eq_none_of_contains_eq_false known
          by_cases same : key = other
          · subst same
            simpa using absent
          · simp [same]
  | false =>
      cases found : entries[key]? with
      | none => simp [Std.TreeMap.getElem?_insert]
      | some value =>
          by_cases unchanged : value = .string (unquote val)
          · by_cases same : key = other
            · subst same
              simp [found, unchanged]
            · simp [unchanged, same]
          · simp [unchanged, Std.TreeMap.getElem?_insert]

theorem entries_held (config : IniStreamConfig) (sectionName key : QString) :
    (config.mData.getD sectionName ∅)[key]? = held config (sectionName, key) := by
  rw [held, Std.TreeMap.getD_eq_getD_getElem?]
  cases config.mData[sectionName]? with
  | none => simp
  | some entries => rfl

theorem held_empty : held {} = fun _ => none := by
  funext cell
  simp [held]

theorem held_assign (config : IniStreamConfig) (sectionName key val : QString) :
    held ⟨config.mData.insert sectionName (assign (config.mData.getD sectionName ∅) key val)⟩ =
      LastWriter.applyWrite (held config) ((sectionName, key), assigned val) := by
  funext ⟨otherSection, otherKey⟩
  rw [LastWriter.applyWrite, Function.update_apply]
  by_cases sameSection : sectionName = otherSection
  · subst sameSection
    have looked := entries_held config sectionName otherKey
    simp [held, assign_lookup, eq_comm] at looked ⊢
    rw [looked]
  · simp [held, Std.TreeMap.getElem?_insert, sameSection, Ne.symm sameSection]

theorem get_held (qt : QtText) (config : IniStreamConfig) (sectionName key : QString)
    (default : QVariant) :
    get qt config sectionName key default =
      (held config (normalize qt sectionName, key)).getD default := by
  unfold get held
  cases config.mData[normalize qt sectionName]? with
  | none => rfl
  | some entries => rfl

theorem has_key_held (qt : QtText) (config : IniStreamConfig) (sectionName key : QString) :
    hasKey qt config sectionName key = (held config (normalize qt sectionName, key)).isSome := by
  unfold hasKey held
  cases config.mData[normalize qt sectionName]? with
  | none => rfl
  | some entries => exact Std.TreeMap.contains_eq_isSome_getElem?

end Testings.IniStream
