import Testings.IniStore

/-!
# Reading back what was written

`parse` normalises the section and the key of an assignment. `get` and `hasKey`
normalise the section only, so a key that is not in lower case is stored under
its lower-case form and looked up under its own. A NUL ends the text that
`parse` sees: in the names it takes the assignment away, in the value its tail.
-/

set_option autoImplicit false

namespace Testings.IniStream

/-- Full lower-case mappings keep text that is there and change nothing twice;
NUL is no letter. -/
structure LowerCase (toLower : QString → QString) : Prop where
  nonempty : ∀ s, s ≠ [] → toLower s ≠ []
  twice : ∀ s, toLower (toLower s) = toLower s
  nul : ∀ s, 0 ∈ toLower s ↔ 0 ∈ s

/-- Names and values that the two lines of an assignment can carry. -/
structure Writable (sectionName key val : QString) : Prop where
  sectionNonempty : sectionName ≠ []
  sectionTrimmed : trimmed sectionName = sectionName
  sectionLine : newline ∉ sectionName
  keyNonempty : key ≠ []
  keyTrimmed : trimmed key = key
  keyLine : newline ∉ key
  keyEquals : chr '=' ∉ key
  keyStart : startsWith key ';' = false ∧ startsWith key '#' = false ∧ startsWith key '[' = false
  valLine : newline ∉ val

def headerLine (sectionName : QString) : QString := chr '[' :: sectionName ++ [chr ']']

def quoted (val : QString) : QString := chr '"' :: val ++ [chr '"']

def assignmentLine (key val : QString) : QString := key ++ chr '=' :: quoted val

def written (sectionName key val : QString) : QString :=
  headerLine sectionName ++ newline :: (assignmentLine key val ++ [newline])

def ReadsBack (qt : QtText) (config : IniStreamConfig) (sectionName key val : QString) : Prop :=
  hasKey qt config sectionName key = true ∧
    ∀ default, get qt config sectionName key default = .string val

theorem trimmed_framed {first last : QChar} (opening : isSpace first = false)
    (closing : isSpace last = false) (middle : QString) :
    trimmed (first :: middle ++ [last]) = first :: middle ++ [last] := by
  rw [trimmed, List.cons_append, List.dropWhile_cons_of_neg (by simp [opening]), ← List.cons_append,
    List.rdropWhile_concat_neg _ _ _ (by simp [closing])]

theorem trimmed_subset (s : QString) : trimmed s ⊆ s :=
  List.Subset.trans (List.rdropWhile_prefix isSpace _).subset (List.dropWhile_sublist _).subset

theorem unquote_subset (val : QString) : unquote val ⊆ val := by
  unfold unquote
  split_ifs
  · exact List.Subset.trans (List.take_subset _ _) (List.drop_subset _ _)
  · exact List.Subset.refl _

theorem trimmed_starts {first : QChar} {rest : QString}
    (stripped : trimmed (first :: rest) = first :: rest) : isSpace first = false := by
  by_contra blank
  have shorter : (trimmed (first :: rest)).length ≤ rest.length := by
    rw [trimmed, List.dropWhile_cons_of_pos (by simpa using blank)]
    exact (List.rdropWhile_prefix _ _).length_le.trans (List.dropWhile_suffix _).length_le
  rw [stripped, List.length_cons] at shorter
  omega

theorem ends_with_framed (c : Char) (first : QChar) (middle : QString) :
    endsWith (first :: middle ++ [chr c]) c := by
  rw [endsWith, List.getLast?_concat, beq_self_eq_true]

theorem mid_framed (first last : QChar) (middle : QString) :
    mid (first :: middle ++ [last]) 1 ((first :: middle ++ [last]).length - 2) = middle := by
  simp [mid]

theorem split_lines_single {line : QString} (nonempty : line ≠ []) (whole : newline ∉ line) :
    splitLines line = [line] := by
  rw [splitLines, ← newline, List.splitOn_eq_singleton whole]
  simp [nonempty]

theorem split_header {sectionName key val : QString} (writable : Writable sectionName key val)
    (rest : QString) :
    splitLines (headerLine sectionName ++ newline :: rest) =
      headerLine sectionName :: splitLines rest := by
  have whole : newline ∉ headerLine sectionName := by
    simp [headerLine, writable.sectionLine]
    decide
  rw [split_lines_append, split_lines_single (by simp [headerLine]) whole]
  rfl

theorem header_line_opens (qt : QtText) {sectionName key val : QString}
    (writable : Writable sectionName key val) :
    header? qt (headerLine sectionName) = some (normalize qt sectionName) := by
  have stripped : trimmed (headerLine sectionName) = headerLine sectionName :=
    trimmed_framed (by decide) (by decide) sectionName
  have header : isHeader (headerLine sectionName) := by
    rw [isHeader, headerLine, ends_with_framed]
    rfl
  rw [header?, stripped, if_pos header, headerName, headerLine, mid_framed,
    writable.sectionTrimmed]

theorem index_of_append {c : Char} {before : QString} (absent : chr c ∉ before) (after : QString) :
    indexOf (before ++ chr c :: after) c = some before.length := by
  rw [indexOf, List.idxOf?_eq_some_iff]
  refine ⟨by simp, by simp, ?_⟩
  intro j earlier found
  rw [List.getElem_append_left earlier] at found
  exact absent (found ▸ List.getElem_mem earlier)

theorem unquote_quoted (val : QString) : unquote (quoted val) = val := by
  have framed : (2 ≤ (quoted val).length && startsWith (quoted val) '"' &&
      endsWith (quoted val) '"') = true := by
    rw [quoted, ends_with_framed]
    simp [startsWith]
  rw [unquote, if_pos framed, quoted, mid_framed]

/-- A line is stripped behind its last visible character only. -/
theorem trimmed_append {first c : QChar} (opening : isSpace first = false)
    (visible : isSpace c = false) (before after : QString) :
    trimmed (first :: before ++ c :: after) = first :: before ++ trimmed (c :: after) := by
  have stopped : (c :: after).reverse.dropWhile isSpace ≠ [] := by
    intro blank
    have all := List.dropWhile_eq_nil_iff.mp blank c (by simp)
    rw [visible] at all
    cases all
  rw [trimmed, trimmed, List.cons_append, List.dropWhile_cons_of_neg (by simp [opening]),
    List.dropWhile_cons_of_neg (by simp [visible]), ← List.cons_append, List.rdropWhile,
    List.reverse_append, List.dropWhile_append, if_neg (by simpa using stopped),
    List.reverse_append, List.reverse_reverse]
  rfl

/-- What stands behind the equals sign is the value, whatever it is. -/
theorem assignment_line_assigns (qt : QtText) {sectionName key val current : QString}
    (writable : Writable sectionName key val) (inside : current ≠ []) {rest kept : QString}
    (stripped : trimmed (chr '=' :: rest) = chr '=' :: kept) :
    assignment? qt current (key ++ chr '=' :: rest) =
      some { sectionName := current, key := normalize qt key, val := trimmed kept } := by
  obtain ⟨first, others, rfl⟩ := List.exists_cons_of_ne_nil writable.keyNonempty
  have visible := trimmed_starts writable.keyTrimmed
  have line : trimmed (first :: others ++ chr '=' :: rest) =
      first :: others ++ chr '=' :: kept := by
    rw [trimmed_append visible (by decide), stripped]
  have starts (c : Char) : startsWith (first :: others ++ chr '=' :: kept) c =
      startsWith (first :: others) c := rfl
  have noComment : isComment (first :: others ++ chr '=' :: kept) = false := by
    rw [isComment, starts, starts, writable.keyStart.1, writable.keyStart.2.1]
    rfl
  have noHeader : isHeader (first :: others ++ chr '=' :: kept) = false := by
    rw [isHeader, starts, writable.keyStart.2.2]
    rfl
  have found : indexOf (first :: others ++ chr '=' :: kept) '=' = some (first :: others).length :=
    index_of_append writable.keyEquals _
  have nonempty : first :: others ++ chr '=' :: kept ≠ [] := List.cons_ne_nil _ _
  have keyPart : left (first :: others ++ chr '=' :: kept) (first :: others).length =
      first :: others := List.take_left
  have valPart : (first :: others ++ chr '=' :: kept).drop ((first :: others).length + 1) =
      kept := by
    rw [List.drop_append, List.drop_of_length_le (Nat.le_succ _), Nat.add_sub_cancel_left]
    rfl
  rw [assignment?, line]
  simp only [nonempty, noComment, noHeader, inside, found, Option.map_some, keyPart, valPart,
    writable.keyTrimmed, Bool.false_eq_true, or_self, if_false]

theorem assignment_no_equals (qt : QtText) (current : QString) {line : QString}
    (absent : chr '=' ∉ line) : assignment? qt current line = none := by
  have stripped : chr '=' ∉ trimmed line := fun member => absent (trimmed_subset line member)
  have nowhere : indexOf (trimmed line) '=' = none := List.idxOf?_eq_none_iff.mpr stripped
  simp [assignment?, nowhere]

theorem decode_before_nul {decode : List Byte → QString} (decoder : Utf8Decoder decode)
    (chunk : List Byte) : decode (beforeNul chunk) = beforeNul (decode chunk) := by
  by_cases cut : 0 ∈ chunk
  · obtain ⟨after, split⟩ := before_nul_split cut
    have fed := decoder.ascii (beforeNul chunk) 0 after (by decide)
    have clean : 0 ∉ decode (beforeNul chunk) := fun member =>
      before_nul_absent chunk (decoder.nul _ member)
    have nothing : beforeNul ((0 : Byte).setWidth 16 :: decode after) = [] := rfl
    rw [← split] at fed
    rw [fed, before_nul_append clean, nothing, List.append_nil]
  · have clean : 0 ∉ decode chunk := fun member => cut (decoder.nul chunk member)
    rw [before_nul_whole cut, before_nul_whole clean]

theorem from_utf8_written {qt : QtText} (decoder : Utf8Decoder qt.decode) {chunk : List Byte}
    {sectionName key val : QString} (lines : qt.decode chunk = written sectionName key val) :
    fromUtf8 qt chunk = beforeNul (written sectionName key val) := by
  have unmarked : ¬byteOrderMark <+: beforeNul chunk := by
    intro marked
    obtain ⟨rest, rfl⟩ := marked.trans (before_nul_front chunk)
    have first : (0xFEFF : QChar) = chr '[' := by
      have heads := congrArg List.head? lines
      rw [decoder.mark] at heads
      exact Option.some.inj heads
    revert first
    decide
  rw [fromUtf8, skipByteOrderMark, if_neg unmarked, decode_before_nul decoder, lines]

section written

variable {qt : QtText} {sectionName key val : QString}

/-- The header line opens the section, and what follows it decides the rest. -/
theorem accepted_header_line (writable : Writable sectionName key val) (line : QString) :
    accepted qt [headerLine sectionName, line] =
      (assignment? qt (qt.toLower sectionName) line).toList := by
  have opened : openSection qt [headerLine sectionName] = normalize qt sectionName := by
    simp [openSection, header_line_opens qt writable]
  have concat := accepted_concat qt [headerLine sectionName] line
  rwa [opened, accepted_header (header_line_opens qt writable)] at concat

theorem header_line_clean (clean : 0 ∉ sectionName) : 0 ∉ headerLine sectionName := by
  rw [headerLine, List.mem_append, List.mem_cons, List.mem_singleton]
  rintro ((opening | inName) | closing)
  · exact absurd opening (by decide)
  · exact clean inName
  · exact absurd closing (by decide)

theorem mem_quoted_nul : 0 ∈ quoted val ↔ 0 ∈ val := by
  rw [quoted, List.mem_append, List.mem_cons, List.mem_singleton]
  constructor
  · rintro ((opening | inVal) | closing)
    · exact absurd opening (by decide)
    · exact inVal
    · exact absurd closing (by decide)
  · exact fun inVal => .inl (.inr inVal)

/-- A NUL in one of the names takes the assignment away. -/
theorem accepted_written_cut (writable : Writable sectionName key val)
    (cut : 0 ∈ sectionName ∨ 0 ∈ key) :
    accepted qt (splitLines (beforeNul (written sectionName key val))) = [] := by
  have alone (line : QString) (whole : newline ∉ line) : splitLines line = [] ∨
      splitLines line = [line] := by
    cases line with
    | nil => exact .inl rfl
    | cons c rest => exact .inr (split_lines_single (List.cons_ne_nil c rest) whole)
  have outside (line : QString) : accepted qt [line] = [] := by
    simp [accepted, openSection, assignment?]
  by_cases early : 0 ∈ sectionName
  · have text : beforeNul (written sectionName key val) = chr '[' :: beforeNul sectionName := by
      have inFront : 0 ∈ chr '[' :: sectionName := List.mem_cons_of_mem _ early
      have inHeader : 0 ∈ headerLine sectionName := List.mem_append_left _ inFront
      rw [written, before_nul_hides inHeader, headerLine, before_nul_hides inFront]
      rfl
    have whole : newline ∉ chr '[' :: beforeNul sectionName := by
      rw [List.mem_cons]
      rintro (bracket | member)
      · revert bracket
        decide
      · exact writable.sectionLine ((before_nul_front _).subset member)
    rcases alone _ whole with nothing | one
    · rw [text, nothing]
      rfl
    · rw [text, one, outside]
  · have late : 0 ∈ key := cut.resolve_left early
    have text : beforeNul (written sectionName key val) =
        headerLine sectionName ++ newline :: beforeNul key := by
      have inKey : 0 ∈ assignmentLine key val := List.mem_append_left _ late
      have feed : beforeNul (newline :: (assignmentLine key val ++ [newline])) =
          newline :: beforeNul (assignmentLine key val ++ [newline]) := rfl
      rw [written, before_nul_append (header_line_clean early), feed, before_nul_hides inKey,
        assignmentLine, before_nul_hides late]
    have whole : newline ∉ beforeNul key := fun member =>
      writable.keyLine ((before_nul_front key).subset member)
    have absent : chr '=' ∉ beforeNul key := fun member =>
      writable.keyEquals ((before_nul_front key).subset member)
    rw [text, split_header writable]
    rcases alone _ whole with nothing | one
    · rw [nothing, outside]
    · rw [one, accepted_header_line writable, assignment_no_equals qt _ absent]
      rfl

/-- Otherwise both lines are read, the value up to a NUL in it. -/
theorem split_written (writable : Writable sectionName key val)
    (named : 0 ∉ sectionName ∧ 0 ∉ key) :
    splitLines (beforeNul (written sectionName key val)) =
      [headerLine sectionName, key ++ chr '=' :: beforeNul (quoted val)] := by
  have feed (rest : QString) : beforeNul (newline :: rest) = newline :: beforeNul rest := rfl
  have equals (rest : QString) : beforeNul (chr '=' :: rest) = chr '=' :: beforeNul rest := rfl
  have text : beforeNul (written sectionName key val) = headerLine sectionName ++
      newline :: (key ++ chr '=' :: beforeNul (quoted val ++ [newline])) := by
    rw [written, before_nul_append (header_line_clean named.1), feed, assignmentLine,
      List.append_assoc, before_nul_append named.2, List.cons_append, equals]
  have whole : newline ∉ key ++ chr '=' :: beforeNul (quoted val) := by
    rw [List.mem_append, List.mem_cons]
    rintro (inKey | isEquals | inVal)
    · exact writable.keyLine inKey
    · revert isEquals
      decide
    · have member := (before_nul_front (quoted val)).subset inVal
      revert member
      simp [quoted, writable.valLine]
      decide
  have line : splitLines (key ++ chr '=' :: beforeNul (quoted val)) =
      [key ++ chr '=' :: beforeNul (quoted val)] := split_lines_single (by simp) whole
  rw [text, split_header writable]
  congr 1
  by_cases cut : 0 ∈ quoted val
  · rw [before_nul_hides cut, line]
  · have ended : key ++ chr '=' :: (quoted val ++ [newline]) =
        key ++ chr '=' :: quoted val ++ [newline] := by simp
    have nothing : beforeNul ([] : QString) = [] := rfl
    rw [before_nul_whole cut] at line ⊢
    rw [before_nul_append cut, feed, nothing, ended, split_lines_terminated, line]

theorem accepted_written (lower : LowerCase qt.toLower) (writable : Writable sectionName key val)
    (named : 0 ∉ sectionName ∧ 0 ∉ key) {kept : QString}
    (stripped : trimmed (chr '=' :: beforeNul (quoted val)) = chr '=' :: kept) :
    accepted qt (splitLines (beforeNul (written sectionName key val))) =
      [{ sectionName := qt.toLower sectionName
         key := qt.toLower key
         val := trimmed kept }] := by
  have inside := lower.nonempty sectionName writable.sectionNonempty
  rw [split_written writable named, accepted_header_line writable,
    assignment_line_assigns qt writable inside stripped]
  rfl

theorem held_written_cut (decoder : Utf8Decoder qt.decode)
    (writable : Writable sectionName key val) (config : IniStreamConfig) {chunk : List Byte}
    (lines : qt.decode chunk = written sectionName key val)
    (cut : 0 ∈ sectionName ∨ 0 ∈ key) :
    held (parse qt config chunk) = held config := by
  rw [parse_effect, acceptedIn, from_utf8_written decoder lines, accepted_written_cut writable cut]
  rfl

/-- The two lines write to the lower-case names and nothing else, and they write the value
exactly when no NUL ends it early. -/
theorem held_written (decoder : Utf8Decoder qt.decode) (lower : LowerCase qt.toLower)
    (writable : Writable sectionName key val) (config : IniStreamConfig) {chunk : List Byte}
    (lines : qt.decode chunk = written sectionName key val)
    (named : 0 ∉ sectionName ∧ 0 ∉ key) :
    ∃ value, held (parse qt config chunk) =
        Function.update (held config) (qt.toLower sectionName, qt.toLower key) value ∧
      (value = some (.string val) ↔ 0 ∉ val) := by
  obtain ⟨kept, stripped⟩ := trimmed_cons (c := chr '=') (by decide) (beforeNul (quoted val))
  have accepts := accepted_written lower writable named stripped
  refine ⟨assigned (trimmed kept), ?_, ?_⟩
  · rw [parse_effect, acceptedIn, from_utf8_written decoder lines, accepts]
    rfl
  · constructor
    · intro same inVal
      have unquoted := (assigned_iff.mp same).2
      have member : 0 ∈ chr '=' :: beforeNul (quoted val) := by
        rw [unquoted] at inVal
        apply trimmed_subset
        rw [stripped]
        exact List.mem_cons_of_mem _ (trimmed_subset _ (unquote_subset _ inVal))
      rw [List.mem_cons] at member
      rcases member with isEquals | inside
      · exact absurd isEquals (by decide)
      · exact before_nul_absent _ inside
    · intro clean
      have whole := before_nul_whole (mt mem_quoted_nul.mp clean)
      have closed : trimmed (chr '=' :: quoted val) = chr '=' :: quoted val := by
        have framed := @trimmed_framed (chr '=') (chr '"') (by decide) (by decide) (chr '"' :: val)
        simpa [quoted] using framed
      have framed : trimmed (quoted val) = quoted val :=
        trimmed_framed (by decide) (by decide) val
      rw [whole, closed] at stripped
      rw [← (List.cons.inj stripped).2, framed, assigned_iff, unquote_quoted]
      exact ⟨List.cons_ne_nil _ _, rfl⟩

end written

theorem split_on_subset (text : QString) :
    ∀ piece ∈ text.splitOn newline, piece ⊆ text := by
  induction text with
  | nil => simp
  | cons c rest induction =>
      rw [List.splitOn_cons_eq_if_modifyHead]
      cases pieces : rest.splitOn newline with
      | nil => exact absurd pieces (List.splitOn_ne_nil _ _)
      | cons first others =>
          rw [pieces] at induction
          have leading := induction first List.mem_cons_self
          have wider (piece : QString) (inside : piece ⊆ rest) : piece ⊆ c :: rest :=
            List.Subset.trans inside (List.subset_cons_self c rest)
          split_ifs
          · intro piece member
            rcases List.mem_cons.mp member with rfl | later
            · exact List.nil_subset _
            · exact wider piece (induction piece later)
          · intro piece member
            rcases List.mem_cons.mp member with rfl | later
            · exact List.cons_subset_cons c leading
            · exact wider piece (induction piece (List.mem_cons_of_mem _ later))

theorem split_lines_subset {text line : QString} (member : line ∈ splitLines text) :
    line ⊆ text :=
  split_on_subset text line (List.mem_of_mem_filter member)

/-- Nothing behind the first NUL of a chunk is among its lines. -/
theorem lines_clean {qt : QtText} (decoder : Utf8Decoder qt.decode) {chunk : List Byte}
    {line : QString} (member : line ∈ splitLines (fromUtf8 qt chunk)) : 0 ∉ line := by
  intro inLine
  have inText := decoder.nul _ (split_lines_subset member inLine)
  unfold skipByteOrderMark at inText
  split_ifs at inText
  · exact before_nul_absent chunk (List.mem_of_mem_drop inText)
  · exact before_nul_absent chunk inText

theorem open_section_clean {qt : QtText} (lower : LowerCase qt.toLower) {lines : List QString}
    (clean : ∀ line ∈ lines, 0 ∉ line) : 0 ∉ openSection qt lines := by
  unfold openSection
  cases last : (lines.filterMap (header? qt)).getLast? with
  | none => exact List.not_mem_nil
  | some name =>
      obtain ⟨line, member, opens⟩ := List.mem_filterMap.mp (List.mem_of_getLast? last)
      rw [Option.getD_some, ← (header_some opens).2, headerName, normalize, lower.nul]
      intro inName
      have inMid := List.mem_of_mem_take (trimmed_subset _ inName)
      exact clean line member (trimmed_subset _ (List.mem_of_mem_drop inMid))

/-- The names in a store that `parse` built. -/
structure Storable (qt : QtText) (sectionName key : QString) : Prop where
  keyLower : qt.toLower key = key
  sectionClean : 0 ∉ sectionName
  keyClean : 0 ∉ key

theorem accepted_storable {qt : QtText} (lower : LowerCase qt.toLower) {lines : List QString}
    (clean : ∀ line ∈ lines, 0 ∉ line) {a : Assignment} (member : a ∈ accepted qt lines) :
    Storable qt a.sectionName a.key := by
  rw [accepted, List.mem_filterMap] at member
  obtain ⟨⟨before, line⟩, listed, assigns⟩ := member
  have among := List.of_mem_zip listed
  have inside := (List.mem_inits _ _).mp among.1
  have lineClean := clean line among.2
  simp only [assignment?] at assigns
  split at assigns
  · cases assigns
  · obtain ⟨eq, _, rfl⟩ := Option.map_eq_some_iff.mp assigns
    refine ⟨lower.twice _, ?_, ?_⟩
    · exact open_section_clean lower fun line member => clean line (inside.subset member)
    · rw [normalize, lower.nul]
      intro inKey
      exact lineClean (trimmed_subset _ (List.mem_of_mem_take (trimmed_subset _ inKey)))

theorem built_storable {qt : QtText} (decoder : Utf8Decoder qt.decode)
    (lower : LowerCase qt.toLower) (chunks : List (List Byte)) {sectionName key : QString}
    {value : QVariant} (found : held (parseAll qt {} chunks) (sectionName, key) = some value) :
    Storable qt sectionName key := by
  rw [held_parse_all] at found
  obtain ⟨a, last, _⟩ := Option.bind_eq_some_iff.mp found
  have member := List.mem_of_getLast? last
  rw [List.mem_filter, List.mem_flatMap, decide_eq_true_iff] at member
  obtain ⟨⟨chunk, _, assigns⟩, rfl, rfl⟩ := member
  exact accepted_storable lower (fun _ => lines_clean decoder) assigns

/-- What the store holds at a cell decides what is read back there. -/
theorem reads_back_iff (qt : QtText) (config : IniStreamConfig) (sectionName key val : QString) :
    ReadsBack qt config sectionName key val ↔
      held config (qt.toLower sectionName, key) = some (.string val) := by
  have cell : held config (normalize qt sectionName, key) =
      held config (qt.toLower sectionName, key) := rfl
  simp only [ReadsBack, has_key_held, get_held, cell]
  cases held config (qt.toLower sectionName, key) with
  | none => simp
  | some value =>
      simp only [Option.isSome_some, true_and, Option.getD_some, Option.some.injEq]
      exact ⟨fun always => always .invalid, fun same _ => same⟩

/-- A key in lower case, with no NUL in front of the value, reads back the value unless a NUL is
in it; any other key reads back what was there before. Stores that `parse` built hold no name
with a NUL and no key that is not in lower case. -/
theorem round_trip_iff (qt : QtText) (decoder : Utf8Decoder qt.decode)
    (lower : LowerCase qt.toLower) (config : IniStreamConfig) (chunk : List Byte)
    (sectionName key val : QString) (writable : Writable sectionName key val)
    (lines : qt.decode chunk = written sectionName key val) :
    (ReadsBack qt (parse qt config chunk) sectionName key val ↔
      if qt.toLower key = key ∧ 0 ∉ sectionName ∧ 0 ∉ key then 0 ∉ val
      else held config (qt.toLower sectionName, key) = some (.string val)) ∧
    ∀ chunks, config = parseAll qt {} chunks →
      (ReadsBack qt (parse qt config chunk) sectionName key val ↔
        qt.toLower key = key ∧ 0 ∉ sectionName ∧ 0 ∉ key ∧ 0 ∉ val) := by
  have readBack : ReadsBack qt (parse qt config chunk) sectionName key val ↔
      if qt.toLower key = key ∧ 0 ∉ sectionName ∧ 0 ∉ key then 0 ∉ val
      else held config (qt.toLower sectionName, key) = some (.string val) := by
    rw [reads_back_iff]
    by_cases named : 0 ∉ sectionName ∧ 0 ∉ key
    · obtain ⟨value, stored, whole⟩ := held_written decoder lower writable config lines named
      rw [stored, Function.update_apply]
      by_cases same : qt.toLower key = key
      · rw [if_pos (by rw [same]), if_pos ⟨same, named⟩, whole]
      · rw [if_neg (fun cell => same (congrArg Prod.snd cell).symm),
          if_neg (fun stays => same stays.1)]
    · have cut : 0 ∈ sectionName ∨ 0 ∈ key := by
        rwa [not_and_or, not_not, not_not] at named
      rw [held_written_cut decoder writable config lines cut, if_neg (fun stays => named stays.2)]
  refine ⟨readBack, ?_⟩
  rintro chunks rfl
  rw [readBack]
  by_cases stays : qt.toLower key = key ∧ 0 ∉ sectionName ∧ 0 ∉ key
  · rw [if_pos stays]
    exact ⟨fun whole => ⟨stays.1, stays.2.1, stays.2.2, whole⟩, fun all => all.2.2.2⟩
  · rw [if_neg stays]
    constructor
    · intro found
      have storable := built_storable decoder lower chunks found
      have sectionClean := mt (lower.nul sectionName).mpr storable.sectionClean
      exact absurd ⟨storable.keyLower, sectionClean, storable.keyClean⟩ stays
    · exact fun all => absurd ⟨all.1, all.2.1, all.2.2.1⟩ stays

theorem ascii_lower_case : LowerCase asciiText.toLower where
  nonempty := by
    intro s nonempty
    simpa [asciiText] using nonempty
  twice := by
    intro s
    have fixed (c : QChar) : asciiLower (asciiLower c) = asciiLower c := by
      have letters : chr 'A' = 0x41 ∧ chr 'Z' = 0x5A := by decide
      by_cases upper : chr 'A' ≤ c ∧ c ≤ chr 'Z'
      · rw [letters.1, letters.2] at upper
        simp only [asciiLower, letters, if_pos upper]
        exact if_neg (by bv_omega)
      · simp only [asciiLower, if_neg upper]
    exact (List.map_map ..).trans (List.map_congr_left fun c _ => fixed c)
  nul := by
    intro s
    have zero (c : QChar) : asciiLower c = 0 ↔ c = 0 := by
      have letters : chr 'A' = 0x41 ∧ chr 'Z' = 0x5A := by decide
      unfold asciiLower
      rw [letters.1, letters.2]
      split_ifs <;> bv_omega
    dsimp only [asciiText]
    rw [List.mem_map]
    constructor
    · rintro ⟨c, member, lowered⟩
      rwa [← (zero c).mp lowered]
    · exact fun member => ⟨0, member, (zero 0).mpr rfl⟩

theorem round_trip_at_lower_key :
    ReadsBack asciiText (parse asciiText {} (ascii "[S]\nk=\"v\"\n")) [chr 'S'] [chr 'k']
      [chr 'v'] := by
  have writable : Writable [chr 'S'] [chr 'k'] [chr 'v'] := by
    constructor <;> decide
  have trip := round_trip_iff asciiText ascii_decoder ascii_lower_case {}
    (ascii "[S]\nk=\"v\"\n") [chr 'S'] [chr 'k'] [chr 'v'] writable (by decide)
  exact (trip.2 [] rfl).mpr (by decide)

/-- `[s]` and `K="v"` store `k`; there is no `K` to read back. -/
theorem upper_case_key_lost :
    Writable [chr 's'] [chr 'K'] [chr 'v'] ∧
      fromUtf8 asciiText (ascii "[s]\nK=\"v\"\n") = written [chr 's'] [chr 'K'] [chr 'v'] ∧
      hasKey asciiText (parse asciiText {} (ascii "[s]\nK=\"v\"\n")) [chr 's'] [chr 'K'] = false ∧
      get asciiText (parse asciiText {} (ascii "[s]\nK=\"v\"\n")) [chr 's'] [chr 'K'] .invalid =
        .invalid := by
  refine ⟨?_, by decide, by decide, by decide⟩
  constructor <;> decide

end Testings.IniStream
