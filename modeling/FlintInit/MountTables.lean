import FlintInit.MountPoints

/-!
# Tables of mounts

The format of fstab and of `/proc/mounts`: one entry a line, fields between
blanks, and a blank, a newline or a backslash inside a field written in octal.
A table is built from its lines, each with the blanks and the tail it is
written with, so that every text of the format is the text of a table.

Neither reader decodes a field, and both end a field at any white space, so
`tables_decoded_iff` needs fields without these characters.  `unmount_all`
also reads comments as entries.
-/

namespace FlintInit

open Splitting

/-! ## The format -/

/-- A character of a field as it is written. -/
def encodeChar (c : Char) : List Char :=
  if c = ' ' then ['\\', '0', '4', '0']
  else if c = '\t' then ['\\', '0', '1', '1']
  else if c = '\n' then ['\\', '0', '1', '2']
  else if c = '\\' then ['\\', '1', '3', '4']
  else [c]

def encodeField (field : String) : List Char :=
  field.toList.flatMap encodeChar

/-- Spaces and tabs. -/
def isBlank (c : Char) : Bool := c = ' ' ∨ c = '\t'

def FstabEntry.fields (entry : FstabEntry) : List String :=
  [entry.spec, entry.file, entry.vfstype, entry.options]

/-- An entry that can be written as a line of a table. -/
structure TableEntry where
  entry : FstabEntry
  nonempty : ∀ field ∈ entry.fields, field ≠ ""
  notComment : startsWith entry.spec "#" = false

/-- Blanks between two fields. -/
structure Gap where
  chars : List Char
  nonempty : chars ≠ []
  blank : ∀ c ∈ chars, isBlank c = true

/-- Blanks at the start of a line, possibly none. -/
structure Indent where
  chars : List Char
  blank : ∀ c ∈ chars, isBlank c = true

/-- What follows the fourth field: nothing, or more fields behind blanks. -/
structure Tail where
  chars : List Char
  separated : ∀ c ∈ chars.head?, isBlank c = true
  oneLine : '\n' ∉ chars

/-- A line of a table. -/
inductive TableLine where
  | entry (indent : Indent) (e : TableEntry) (gap₁ gap₂ gap₃ : Gap)
      (tail : Tail)
  | comment (indent : Indent) (text : List Char) (oneLine : '\n' ∉ text)
  | blank (indent : Indent)

namespace TableLine

def render : TableLine → List Char
  | entry indent e gap₁ gap₂ gap₃ tail =>
      indent.chars ++ (encodeField e.entry.spec ++ (gap₁.chars ++
        (encodeField e.entry.file ++ (gap₂.chars ++
          (encodeField e.entry.vfstype ++ (gap₃.chars ++
            (encodeField e.entry.options ++ tail.chars)))))))
  | comment indent text _ => indent.chars ++ '#' :: text
  | blank indent => indent.chars

def entry? : TableLine → Option FstabEntry
  | entry _ e _ _ _ _ => some e.entry
  | comment _ _ _ => none
  | blank _ => none

end TableLine

/-- The text of a table. -/
def tableText (table : List TableLine) : String :=
  String.ofList (['\n'].intercalate (table.map TableLine.render))

/-- The entries of a table. -/
def entriesOf (table : List TableLine) : List FstabEntry :=
  table.filterMap TableLine.entry?

/-- The mount point of an entry that is not left mounted. -/
def FstabEntry.detached (entry : FstabEntry) : Option String :=
  if entry.file = "/" then none
  else if entry.vfstype ∈ skipTypes then none
  else some entry.file

/-! ## Written fields -/

/-- The characters written in octal. -/
def escapedChars : List Char := [' ', '\t', '\n', '\\']

/-- A character that needs no escape stands for itself. -/
theorem encodeChar_plain {c : Char} (h : c ∉ escapedChars) :
    encodeChar c = [c] := by
  simp only [escapedChars, List.mem_cons, List.not_mem_nil, or_false,
    not_or] at h
  simp [encodeChar, h]

/-- An escape is a backslash and three digits, and nothing in it is white
space. -/
theorem encodeChar_escaped : ∀ c ∈ escapedChars,
    (encodeChar c).head? = some '\\' ∧ (encodeChar c).length = 4 ∧
      ∀ d ∈ encodeChar c, isWhitespace d = false := by
  have hall : escapedChars.all (fun c =>
      (encodeChar c).head? = some '\\' && (encodeChar c).length = 4 &&
        (encodeChar c).all (!isWhitespace ·)) = true := by
    decide
  intro c hc
  simpa [and_assoc] using List.all_eq_true.mp hall c hc

/-- What holds of the characters of a field holds of it as written, if it
holds of the codes. -/
theorem forall_mem_encodeField {P : Char → Prop} {field : String}
    (hcodes : ∀ c ∈ escapedChars, ∀ d ∈ encodeChar c, P d)
    (hfield : ∀ c ∈ field.toList, c ∉ escapedChars → P c) :
    ∀ d ∈ encodeField field, P d := by
  intro d hd
  obtain ⟨c, hc, hdc⟩ := List.mem_flatMap.mp hd
  by_cases hescaped : c ∈ escapedChars
  · exact hcodes c hescaped d hdc
  · rw [encodeChar_plain hescaped, List.mem_singleton] at hdc
    rw [hdc]
    exact hfield c hc hescaped

/-- A newline of a field is written in octal. -/
theorem newline_notMem_encodeField (field : String) :
    '\n' ∉ encodeField field := by
  have hno : ∀ d ∈ encodeField field, d ≠ '\n' := by
    apply forall_mem_encodeField
    · rintro c hc _ hd rfl
      exact absurd ((encodeChar_escaped c hc).2.2 _ hd) (by decide)
    · rintro c _ hplain rfl
      exact hplain (by decide)
  exact fun hmem => hno _ hmem rfl

/-- A field that is not empty is written with the code or the character its
first character has. -/
theorem head_encodeField {field : String} (h : field ≠ "") :
    ∃ c, field.toList.head? = some c ∧ ∃ rest,
      encodeField field = encodeChar c ++ rest := by
  unfold encodeField
  cases hchars : field.toList with
  | nil => exact absurd (String.toList_eq_nil_iff.mp hchars) h
  | cons c cs => exact ⟨c, rfl, cs.flatMap encodeChar, List.flatMap_cons⟩

/-- Every character leaves something in the line. -/
theorem encodeChar_ne_nil (c : Char) : encodeChar c ≠ [] := by
  intro hnil
  by_cases hescaped : c ∈ escapedChars
  · have hlength := (encodeChar_escaped c hescaped).2.1
    rw [hnil] at hlength
    cases hlength
  · rw [encodeChar_plain hescaped] at hnil
    cases hnil

/-- So a field that is not empty is a word of the line. -/
theorem encodeField_ne_nil {field : String} (h : field ≠ "") :
    encodeField field ≠ [] := by
  obtain ⟨c, -, rest, hcode⟩ := head_encodeField h
  rw [hcode]
  exact List.append_ne_nil_of_left_ne_nil (encodeChar_ne_nil c) rest

/-- Writing a field does not make a comment of it. -/
theorem encodeField_not_comment {field : String} (hne : field ≠ "")
    (h : startsWith field "#" = false) :
    startsWith (String.ofList (encodeField field)) "#" = false := by
  rw [← Bool.not_eq_true, startsWith_hash] at h ⊢
  obtain ⟨c, hhead, rest, hcode⟩ := head_encodeField hne
  rw [String.toList_ofList, hcode]
  by_cases hescaped : c ∈ escapedChars
  · rw [List.head?_append, (encodeChar_escaped c hescaped).1, Option.some_or]
    decide
  · rw [encodeChar_plain hescaped, List.singleton_append, List.head?_cons,
      ← hhead]
    exact h

/-- A field is written as it is when it has none of the escaped
characters. -/
theorem encodeField_eq_iff {field : String} :
    encodeField field = field.toList ↔
      ∀ c ∈ field.toList, c ∉ escapedChars := by
  have hlength : ∀ cs : List Char,
      cs.length ≤ (cs.flatMap encodeChar).length := by
    intro cs
    induction cs with
    | nil => exact Nat.le_refl _
    | cons c cs ih =>
        have hpos := List.length_pos_of_ne_nil (encodeChar_ne_nil c)
        rw [List.flatMap_cons, List.length_append, List.length_cons]
        omega
  unfold encodeField
  induction field.toList with
  | nil => simp
  | cons c cs ih =>
      rw [List.flatMap_cons, List.forall_mem_cons]
      by_cases hescaped : c ∈ escapedChars
      · -- four characters for one leave too many
        constructor
        · intro heq
          have hlen := congrArg List.length heq
          have hfour := (encodeChar_escaped c hescaped).2.1
          have hle := hlength cs
          rw [List.length_append, List.length_cons] at hlen
          omega
        · exact fun h => absurd hescaped h.1
      · rw [encodeChar_plain hescaped, List.singleton_append, List.cons_inj_right]
        exact ⟨fun h => ⟨hescaped, ih.mp h⟩, fun h => ih.mpr h.2⟩

/-! ## Lines -/

/-- Blanks and tabs are white space. -/
theorem isWhitespace_of_isBlank {c : Char} (h : isBlank c = true) :
    isWhitespace c = true := by
  rcases of_decide_eq_true h with rfl | rfl <;> decide

/-- Blanks and tabs do not end a line. -/
theorem newline_notMem_blanks {cs : List Char}
    (h : ∀ c ∈ cs, isBlank c = true) : '\n' ∉ cs :=
  fun hmem => absurd (h _ hmem) (by decide)

/-- A line has no newline in it. -/
theorem newline_notMem_render (line : TableLine) : '\n' ∉ line.render := by
  cases line with
  | entry indent e gap₁ gap₂ gap₃ tail =>
      simp only [TableLine.render, List.mem_append, not_or]
      exact ⟨newline_notMem_blanks indent.blank,
        newline_notMem_encodeField _, newline_notMem_blanks gap₁.blank,
        newline_notMem_encodeField _, newline_notMem_blanks gap₂.blank,
        newline_notMem_encodeField _, newline_notMem_blanks gap₃.blank,
        newline_notMem_encodeField _, tail.oneLine⟩
  | comment indent text oneLine =>
      have hhash : '\n' ≠ '#' := by decide
      simp only [TableLine.render, List.mem_append, List.mem_cons, not_or]
      exact ⟨newline_notMem_blanks indent.blank, hhash, oneLine⟩
  | blank indent => exact newline_notMem_blanks indent.blank

/-- The pieces between newlines of a table's text are its lines. -/
theorem filterMap_tableText {β : Type} {f : List String → Option β}
    (hnil : f [] = none) (table : List TableLine) :
    (lines (tableText table)).filterMap (fun l => f (splitWhitespace l)) =
      table.filterMap (fun line => f (wordsOf line.render)) := by
  rw [filterMap_lines hnil, tableText, String.toList_ofList]
  cases table with
  | nil => simp [wordsOf, hnil]
  | cons line table =>
      have hlines : ∀ piece ∈ (line :: table).map TableLine.render,
          '\n' ∉ piece := by
        intro piece hpiece
        obtain ⟨line', -, rfl⟩ := List.mem_map.mp hpiece
        exact newline_notMem_render line'
      rw [List.splitOn_intercalate '\n' hlines (by simp),
        List.filterMap_map]
      rfl

/-! ## What is read off a line -/

/-- Fields without white space. -/
def FstabEntry.Unbroken (entry : FstabEntry) : Prop :=
  ∀ field ∈ entry.fields, ∀ c ∈ field.toList, isWhitespace c = false

/-- The entry with its fields as they are written. -/
def FstabEntry.written (entry : FstabEntry) : FstabEntry where
  spec := String.ofList (encodeField entry.spec)
  file := String.ofList (encodeField entry.file)
  vfstype := String.ofList (encodeField entry.vfstype)
  options := String.ofList (encodeField entry.options)

/-- A field without white space is one word, however it is written. -/
theorem encodeField_unbroken {field : String}
    (h : ∀ c ∈ field.toList, isWhitespace c = false) :
    ∀ d ∈ encodeField field, isWhitespace d = false :=
  forall_mem_encodeField (fun c hc => (encodeChar_escaped c hc).2.2)
    (fun c hc _ => h c hc)

section Entries

variable {e : TableEntry} (h : e.entry.Unbroken)
include h

/-- A field is a word of its line. -/
theorem words_field {field : String} (hfield : field ∈ e.entry.fields)
    (gap : Gap) (rest : List Char) :
    words isWhitespace (encodeField field ++ (gap.chars ++ rest)) =
      encodeField field :: words isWhitespace rest :=
  words_word_gap (encodeField_ne_nil (e.nonempty field hfield))
    (encodeField_unbroken (h field hfield)) gap.nonempty
    (fun c hc => isWhitespace_of_isBlank (gap.blank c hc)) rest

/-- So is the last one. -/
theorem words_lastField {field : String} (hfield : field ∈ e.entry.fields)
    (tail : Tail) :
    words isWhitespace (encodeField field ++ tail.chars) =
      encodeField field :: words isWhitespace tail.chars := by
  have hne := encodeField_ne_nil (e.nonempty field hfield)
  have hunbroken := encodeField_unbroken (h field hfield)
  have hseparated := tail.separated
  cases htail : tail.chars with
  | nil => rw [List.append_nil, words_word hne hunbroken, words_nil]
  | cons c rest =>
      rw [htail] at hseparated
      have hc : isWhitespace c = true :=
        isWhitespace_of_isBlank (hseparated c rfl)
      have hrest : words isWhitespace (c :: rest) = words isWhitespace rest :=
        words_append_sep [] hc rest
      rw [words_append_sep _ hc, words_word hne hunbroken, hrest]
      rfl

/-- The words of an entry's line are its fields as written, and more. -/
theorem wordsOf_entry (indent : Indent) (gap₁ gap₂ gap₃ : Gap)
    (tail : Tail) :
    ∃ rest, wordsOf (TableLine.entry indent e gap₁ gap₂ gap₃ tail).render =
      e.entry.written.spec :: e.entry.written.file ::
        e.entry.written.vfstype :: e.entry.written.options :: rest := by
  refine ⟨wordsOf tail.chars, ?_⟩
  unfold wordsOf TableLine.render
  rw [words_seps (fun c hc => isWhitespace_of_isBlank (indent.blank c hc)),
    words_field h (by simp [FstabEntry.fields]),
    words_field h (by simp [FstabEntry.fields]),
    words_field h (by simp [FstabEntry.fields]),
    words_lastField h (by simp [FstabEntry.fields])]
  rfl

end Entries

/-- Blanks have no words. -/
theorem wordsOf_blank (indent : Indent) :
    wordsOf (TableLine.blank indent).render = [] := by
  have hwords := words_seps
    (fun c hc => isWhitespace_of_isBlank (indent.blank c hc)) []
  rw [List.append_nil, words_nil] at hwords
  rw [TableLine.render, wordsOf, hwords]
  rfl

/-- The first word of a comment starts with `#`. -/
theorem wordsOf_comment (indent : Indent) (text : List Char)
    (oneLine : '\n' ∉ text) :
    ∃ w ws, wordsOf (TableLine.comment indent text oneLine).render = w :: ws ∧
      startsWith w "#" = true := by
  have htrim : startsWith (trimStart
      (String.ofList (indent.chars ++ '#' :: text))) "#" = true := by
    rw [startsWith_hash, trimStart, String.toList_ofList, String.toList_ofList,
      List.dropWhile_append_of_pos
        (fun c hc => isWhitespace_of_isBlank (indent.blank c hc)),
      List.dropWhile_cons_of_neg (by decide)]
    rfl
  have hwords := startsWith_trimStart.mp htrim
  rw [String.toList_ofList] at hwords
  exact hwords

/-- A line whose fields have no white space is read as written. An entry gives
its own fields, with the escapes still in them; a comment or a blank line gives
nothing. -/
theorem entryOfWords_render {line : TableLine}
    (h : ∀ entry ∈ line.entry?, entry.Unbroken) :
    entryOfWords (wordsOf line.render) =
      line.entry?.map FstabEntry.written := by
  cases line with
  | entry indent e gap₁ gap₂ gap₃ tail =>
      obtain ⟨rest, hwords⟩ :=
        wordsOf_entry (h e.entry rfl) indent gap₁ gap₂ gap₃ tail
      have hcomment : startsWith e.entry.written.spec "#" = false := by
        refine encodeField_not_comment (e.nonempty _ ?_) e.notComment
        simp [FstabEntry.fields]
      rw [hwords, entryOfWords, if_neg (by simp [hcomment])]
      rfl
  | comment indent text oneLine =>
      obtain ⟨w, ws, hwords, hhash⟩ := wordsOf_comment indent text oneLine
      rw [hwords]
      unfold entryOfWords
      split
      · rename_i hcons
        rw [if_pos ((List.cons.inj hcons).1 ▸ hhash)]
        rfl
      · rfl
  | blank indent =>
      rw [wordsOf_blank]
      rfl

/-- So is its mount point. -/
theorem mountPointOfWords_entry {indent : Indent} {e : TableEntry}
    {gap₁ gap₂ gap₃ : Gap} {tail : Tail} (h : e.entry.Unbroken) :
    mountPointOfWords
        (wordsOf (TableLine.entry indent e gap₁ gap₂ gap₃ tail).render) =
      e.entry.written.detached := by
  obtain ⟨rest, hwords⟩ := wordsOf_entry h indent gap₁ gap₂ gap₃ tail
  rw [hwords]
  rfl

/-! ## When tables are decoded -/

/-- Both readers return what the table holds. -/
structure Decoded (table : List TableLine) : Prop where
  entries : parseFstab (tableText table) = entriesOf table
  detached : unmountPaths (tableText table) =
    ((entriesOf table).filterMap FstabEntry.detached).reverse

/-- A field without white space and backslashes. -/
def PlainField (field : String) : Prop :=
  ∀ c ∈ field.toList, isWhitespace c = false ∧ c ≠ '\\'

/-- A comment that is not taken for a mount to undo: it has fewer than three
words, or the second is `/`, or the third is a type left mounted. -/
def QuietComment : TableLine → Prop
  | .entry _ _ _ _ _ _ => True
  | .comment indent text _ =>
      ∀ first mountpoint vfstype rest,
        wordsOf (indent.chars ++ '#' :: text) =
          first :: mountpoint :: vfstype :: rest →
        mountpoint = "/" ∨ vfstype ∈ skipTypes
  | .blank _ => True

/-- The entries of a table are those of its lines. -/
theorem mem_entriesOf {table : List TableLine} {entry : FstabEntry} :
    entry ∈ entriesOf table ↔ ∃ line ∈ table, line.entry? = some entry :=
  List.mem_filterMap

/-- What `parse_fstab` returns has no white space in it. -/
theorem unbroken_of_mem_parseFstab {content : String} {entry : FstabEntry}
    (h : entry ∈ parseFstab content) : entry.Unbroken := by
  obtain ⟨line, -, hline⟩ := mem_parseFstab.mp h
  obtain ⟨rest, hwords, -⟩ := entryOfWords_eq_some.mp hline
  intro field hfield c hc
  have hword : field ∈ splitWhitespace line := by
    rw [hwords]
    exact List.mem_append_left rest hfield
  obtain ⟨chars, hchars, rfl⟩ := List.mem_map.mp hword
  rw [String.toList_ofList] at hc
  exact ((of_mem_words hchars).2 c hc).2

/-- A table of entries without white space is read as written. -/
theorem parseFstab_tableText {table : List TableLine}
    (h : ∀ entry ∈ entriesOf table, entry.Unbroken) :
    parseFstab (tableText table) =
      (entriesOf table).map FstabEntry.written := by
  rw [parseFstab_eq, filterMap_tableText rfl, entriesOf, List.map_filterMap]
  refine List.filterMap_congr fun line hline => ?_
  exact entryOfWords_render
    (fun entry hentry => h entry (mem_entriesOf.mpr ⟨line, hline, hentry⟩))

/-- A field without white space and backslash is written as it is. -/
theorem PlainField.encode {field : String} (h : PlainField field) :
    encodeField field = field.toList := by
  refine encodeField_eq_iff.mpr fun c hc hescaped => ?_
  have hall : escapedChars.all (fun c => isWhitespace c || c = '\\') = true := by
    decide
  have hcode := List.all_eq_true.mp hall c hescaped
  rw [Bool.or_eq_true, decide_eq_true_eq] at hcode
  obtain ⟨hspace, hbackslash⟩ := h c hc
  rcases hcode with hws | hbs
  · rw [hws] at hspace
    cases hspace
  · exact hbackslash hbs

/-- Plain fields are written as they are. -/
theorem written_eq_self {entry : FstabEntry}
    (h : ∀ field ∈ entry.fields, PlainField field) : entry.written = entry := by
  have hfield : ∀ field ∈ entry.fields,
      String.ofList (encodeField field) = field := by
    intro field hmem
    rw [(h field hmem).encode, String.ofList_toList]
  cases entry with
  | mk spec file vfstype options =>
      simp only [FstabEntry.fields, List.forall_mem_cons] at hfield
      obtain ⟨hspec, hfile, hvfstype, hoptions, -⟩ := hfield
      simp only [FstabEntry.written, hspec, hfile, hvfstype, hoptions]

/-- Fields that are written as they are, and have no white space, are
plain. -/
theorem plain_of_written {entry : FstabEntry} (h : entry.Unbroken)
    (hwritten : entry.written = entry) :
    ∀ field ∈ entry.fields, PlainField field := by
  have hself : ∀ field ∈ entry.fields,
      String.ofList (encodeField field) = field := by
    cases entry with
    | mk spec file vfstype options =>
        simp only [FstabEntry.written, FstabEntry.mk.injEq] at hwritten
        obtain ⟨hspec, hfile, hvfstype, hoptions⟩ := hwritten
        simp [FstabEntry.fields, hspec, hfile, hvfstype, hoptions]
  intro field hfield c hc
  have hcode : encodeField field = field.toList := by
    have hchars := congrArg String.toList (hself field hfield)
    rw [String.toList_ofList] at hchars
    exact hchars
  refine ⟨h field hfield c hc, ?_⟩
  rintro rfl
  exact encodeField_eq_iff.mp hcode _ hc (by decide)

/-- The entries come back when all their fields are plain. Otherwise some field
has an escape in the table, and the reader leaves it as it is written. -/
theorem parseFstab_decoded_iff (table : List TableLine) :
    parseFstab (tableText table) = entriesOf table ↔
      ∀ entry ∈ entriesOf table, ∀ field ∈ entry.fields, PlainField field := by
  constructor
  · intro heq
    have hunbroken : ∀ entry ∈ entriesOf table, entry.Unbroken := by
      intro entry hentry
      rw [← heq] at hentry
      exact unbroken_of_mem_parseFstab hentry
    have hwritten : (entriesOf table).map FstabEntry.written =
        (entriesOf table).map id := by
      rw [← parseFstab_tableText hunbroken, List.map_id, heq]
    intro entry hentry
    exact plain_of_written (hunbroken entry hentry)
      (List.map_inj_left.mp hwritten entry hentry)
  · intro hplain
    have hunbroken : ∀ entry ∈ entriesOf table, entry.Unbroken :=
      fun entry hentry field hfield c hc =>
        (hplain entry hentry field hfield c hc).1
    rw [parseFstab_tableText hunbroken]
    have hself : (entriesOf table).map FstabEntry.written =
        (entriesOf table).map id :=
      List.map_congr_left fun entry hentry =>
        written_eq_self (hplain entry hentry)
    rw [hself, List.map_id]

/-- A reader that takes fewer of the lines has no more of them. -/
theorem length_filterMap_le {α β : Type} {f g : α → Option β} {xs : List α}
    (h : ∀ x ∈ xs, g x = f x ∨ g x = none) :
    (xs.filterMap g).length ≤ (xs.filterMap f).length := by
  induction xs with
  | nil => exact Nat.le_refl _
  | cons x xs ih =>
      have hrest := ih (fun y hy => h y (List.mem_cons_of_mem _ hy))
      rw [List.filterMap_cons, List.filterMap_cons]
      rcases h x List.mem_cons_self with hx | hx
      · rw [hx]
        cases f x with
        | none => exact hrest
        | some b => exact Nat.succ_le_succ hrest
      · rw [hx]
        cases f x with
        | none => exact hrest
        | some b => exact Nat.le_succ_of_le hrest

/-- A filter that finds more than another finds as much only if it finds
nothing more. -/
theorem filterMap_eq_iff {α β : Type} {f g : α → Option β} {xs : List α}
    (h : ∀ x ∈ xs, g x = f x ∨ g x = none) :
    xs.filterMap f = xs.filterMap g ↔ ∀ x ∈ xs, f x = g x := by
  induction xs with
  | nil => simp
  | cons x xs ih =>
      have hrest : ∀ y ∈ xs, g y = f y ∨ g y = none := fun y hy =>
        h y (List.mem_cons_of_mem _ hy)
      rw [List.filterMap_cons, List.filterMap_cons, List.forall_mem_cons]
      rcases h x List.mem_cons_self with hx | hx
      · rw [hx]
        cases hf : f x with
        | none => simp [ih hrest]
        | some b => simp [ih hrest]
      · cases hf : f x with
        | none => simp [hx, ih hrest]
        | some b =>
            -- one element more than can be made up for
            constructor
            · intro heq
              have hlength := congrArg List.length heq
              have hshort := length_filterMap_le hrest
              simp only [hx, List.length_cons] at hlength
              omega
            · intro hall
              rw [hx] at hall
              cases hall.1

/-- What `unmount_all` should take from a line. -/
def TableLine.detached (line : TableLine) : Option String :=
  line.entry?.bind FstabEntry.detached

/-- What is detached of a table is what is detached of its lines, in their
order. -/
theorem detached_entriesOf (table : List TableLine) :
    (entriesOf table).filterMap FstabEntry.detached =
      table.filterMap TableLine.detached := by
  rw [entriesOf, List.filterMap_filterMap]
  rfl

/-- What `unmount_all` takes from a line of plain fields is what an entry
mounts. It takes something else only from a comment with three words or more,
whose second is not the root and whose third is not a type left mounted. -/
theorem mountPointOfWords_render {line : TableLine}
    (h : ∀ entry ∈ line.entry?, ∀ field ∈ entry.fields, PlainField field) :
    (line.detached = mountPointOfWords (wordsOf line.render) ∨
      line.detached = none) ∧
    (mountPointOfWords (wordsOf line.render) = line.detached ↔
      QuietComment line) := by
  cases line with
  | entry indent e gap₁ gap₂ gap₃ tail =>
      have hplain := h e.entry rfl
      have hunbroken : e.entry.Unbroken := fun field hfield c hc =>
        (hplain field hfield c hc).1
      have hread : mountPointOfWords (wordsOf
          (TableLine.entry indent e gap₁ gap₂ gap₃ tail).render) =
          e.entry.detached := by
        rw [mountPointOfWords_entry hunbroken, written_eq_self hplain]
      rw [hread]
      exact ⟨.inl rfl, fun _ => trivial, fun _ => rfl⟩
  | comment indent text oneLine =>
      refine ⟨.inr rfl, ?_⟩
      have hnone : (TableLine.comment indent text oneLine).detached = none :=
        rfl
      rw [hnone]
      unfold mountPointOfWords QuietComment TableLine.render
      split
      · rename_i first mountpoint vfstype rest hwords
        constructor
        · intro hread first' mountpoint' vfstype' rest' hwords'
          rw [hwords] at hwords'
          cases hwords'
          grind
        · intro hquiet
          rcases hquiet _ _ _ _ hwords with hroot | hskip
          · rw [if_pos hroot]
          · rw [if_pos hskip, ite_self]
      · rename_i hfew
        refine iff_of_true rfl fun first mountpoint vfstype rest hwords => ?_
        exact absurd hwords (hfew first mountpoint vfstype rest)
  | blank indent =>
      rw [wordsOf_blank]
      exact ⟨.inl rfl, fun _ => trivial, fun _ => rfl⟩

/-- **When tables of mounts are decoded.**  Both readers return the entries of
a table, and their mount points, exactly when no field of an entry has white
space or a backslash in it and no comment can be taken for a mount. -/
theorem tables_decoded_iff (table : List TableLine) :
    Decoded table ↔
      (∀ entry ∈ entriesOf table, ∀ field ∈ entry.fields, PlainField field) ∧
      ∀ line ∈ table, QuietComment line := by
  have hdetached : (∀ entry ∈ entriesOf table, ∀ field ∈ entry.fields,
      PlainField field) →
      (unmountPaths (tableText table) =
          ((entriesOf table).filterMap FstabEntry.detached).reverse ↔
        ∀ line ∈ table, QuietComment line) := by
    intro hplain
    have hlines : ∀ line ∈ table, ∀ entry ∈ line.entry?,
        ∀ field ∈ entry.fields, PlainField field :=
      fun line hline entry hentry =>
        hplain entry (mem_entriesOf.mpr ⟨line, hline, hentry⟩)
    rw [unmountPaths_eq, filterMap_tableText rfl, List.reverse_inj,
      detached_entriesOf, filterMap_eq_iff fun line hline =>
        (mountPointOfWords_render (hlines line hline)).1]
    constructor
    · intro h line hline
      exact (mountPointOfWords_render (hlines line hline)).2.mp (h line hline)
    · intro h line hline
      exact (mountPointOfWords_render (hlines line hline)).2.mpr (h line hline)
  constructor
  · intro h
    have hplain := (parseFstab_decoded_iff table).mp h.entries
    exact ⟨hplain, (hdetached hplain).mp h.detached⟩
  · rintro ⟨hplain, hquiet⟩
    exact ⟨(parseFstab_decoded_iff table).mpr hplain,
      (hdetached hplain).mpr hquiet⟩

/-- A table with one line, for a mount point with a space in its name. -/
def myDiskTable : List TableLine :=
  let gap : Gap := ⟨[' '], by simp, by simp [isBlank]⟩
  [.entry ⟨[], by simp⟩
    ⟨⟨"/dev/sdb1", "/mnt/My Disk", "ext4", "defaults"⟩, by decide, by decide⟩
    gap gap gap ⟨[' ', '0', ' ', '2'], by simp [isBlank], by simp⟩]

/-- It is mounted on, and unmounted from, the name as it is written. -/
theorem my_disk_not_decoded :
    ¬ Decoded myDiskTable ∧
      unmountPaths (tableText myDiskTable) = ["/mnt/My\\040Disk"] := by
  constructor
  · intro h
    exact absurd h.entries (by decide)
  · decide

end FlintInit
