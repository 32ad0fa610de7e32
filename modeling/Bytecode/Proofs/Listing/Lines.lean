import Bytecode.ConstantPool
import Bytecode.Proofs.Listing.LineFeeds
import Mathlib.Algebra.BigOperators.Group.List.Basic
import Mathlib.Algebra.GroupWithZero.Nat

/-!
# The lines of a listing

A listing is written as one line for each instruction: its offset and its text, then for an
instruction that loads a constant a note of what is loaded. Whether it can be read back so depends
on the notes. The name of a class is written as it stands in the pool, and each line feed in it
begins a new line. Nothing else in a listing can do that, so with no line feed in the names of the
classes that are loaded, cutting the listing at its line feeds gives back the instructions line by
line.

## Main definitions

* `Entry.heading`, `Entry.note`: the two parts of a line
* `Entry.notedClass?`, `Entry.strayLineFeeds`: the class named in the note, and the line feeds that
  its name brings in

## Main results

* `Entry.note_cases`: when there is a note
* `Entry.count_newline_line`: the line feeds of one line
* `Code.count_newline_listing`: those of a listing
* `Code.splitOn_listing`: a listing without stray line feeds, cut into its lines
* `Code.lines_of_listing`: what can be told of the lines of any listing
-/

namespace Bytecode

/-! ## Cutting a text at its line feeds -/

/-- Lines that are each ended by a line feed are found again by cutting there. -/
theorem Text.splitOn_flatMap_lines {lines : List (List Char)}
    (h : ∀ line ∈ lines, '\n' ∉ line) :
    (lines.flatMap fun line => line ++ ['\n']).splitOn '\n' = lines ++ [[]] := by
  induction lines with
  | nil => rfl
  | cons line rest ih =>
    obtain ⟨hline, hrest⟩ := List.forall_mem_cons.mp h
    rw [List.flatMap_cons, List.append_assoc, List.singleton_append,
      List.splitOn_append_cons_self_of_not_mem hline, ih hrest, List.cons_append]

/-! ## Notes -/

/-- The class that the note of a reference names, if a class is loaded. -/
def ConstantRef.notedClass? (source : ConstantSource) (ref : ConstantRef) : Option ClassName :=
  (ref.value source).toOption.bind LoadedValue.class?

theorem LoadedValue.count_newline_text (value : LoadedValue) :
    value.text.toList.count '\n' =
      value.class?.elim 0 fun name => name.dotted.toList.count '\n' := by
  cases hclass : value.class? with
  | none => exact List.count_eq_zero.mpr (newline_not_mem_text hclass)
  | some name =>
    cases value with
    | classObject name' =>
      cases hclass
      simp [text]
    | _ => cases hclass

/-- **Only the name of a class** brings line feeds into a note. -/
theorem ConstantRef.count_newline_note (source : ConstantSource) (ref : ConstantRef) :
    (ref.note source).toList.count '\n' =
      (ref.notedClass? source).elim 0 fun name => name.dotted.toList.count '\n' := by
  unfold note notedClass?
  cases ref.value source with
  | error e =>
    have hmessage := List.count_eq_zero.mpr e.newline_not_mem_message
    simp [hmessage, Except.toOption]
  | ok value => simp [value.count_newline_text, Except.toOption]

/-- Two spaces and two slashes open every note. -/
theorem ConstantRef.exists_note_eq (source : ConstantSource) (ref : ConstantRef) :
    ∃ rest, ref.note source = "  //" ++ rest := by
  unfold note
  cases ref.value source with
  | error e => exact ⟨" <" ++ e.message ++ ">", String.toList_inj.mp (by simp)⟩
  | ok value => exact ⟨" " ++ value.text, String.toList_inj.mp (by simp)⟩

namespace Entry

variable (options : ListingOptions) (source : Option ConstantSource) (entry : Entry)

/-- The offset in four columns or more, and the text. -/
def heading : String :=
  Text.alignRight 4 (toString entry.offset) ++ ": " ++ entry.instruction.text options.verbose

/-- What stands behind the text: the note, if there is one. -/
def note : String :=
  if options.resolveConstants then entry.instruction.note source else ""

/-- The class that the note names, if it does. -/
def notedClass? : Option ClassName :=
  match entry.instruction, source with
  | .ldc ref, some source => if options.resolveConstants then ref.notedClass? source else none
  | _, _ => none

/-- The line feeds in the name of this class. -/
def strayLineFeeds : Nat :=
  (entry.notedClass? options source).elim 0 fun name => name.dotted.toList.count '\n'

theorem line_eq :
    entry.line options source = entry.heading options ++ entry.note options source ++ "\n" :=
  rfl

theorem newline_not_mem_heading : '\n' ∉ (entry.heading options).toList := by
  have htext := entry.instruction.newline_not_mem_text options.verbose
  simp [heading, htext, Text.newline_mem_alignRight_iff]

/-- **A note** is empty and names no class, or it is that of a constant looked up in a source. -/
theorem note_cases :
    (entry.note options source = "" ∧ entry.notedClass? options source = none) ∨
      ∃ ref constants, entry.instruction = .ldc ref ∧ source = some constants ∧
        options.resolveConstants = true ∧ entry.note options source = ref.note constants ∧
        entry.notedClass? options source = ref.notedClass? constants := by
  rcases entry with ⟨offset, instruction⟩
  by_cases hresolve : options.resolveConstants = true
  · cases instruction with
    | ldc ref =>
      cases source with
      | none => exact .inl ⟨if_pos hresolve, rfl⟩
      | some constants =>
        exact .inr ⟨ref, constants, rfl, rfl, hresolve, if_pos hresolve, if_pos hresolve⟩
    | iconst _ | bipush _ | fstore _ => exact .inl ⟨if_pos hresolve, rfl⟩
  · refine .inl ⟨if_neg hresolve, ?_⟩
    unfold notedClass?
    split
    · exact if_neg hresolve
    · rfl

theorem count_newline_note :
    (entry.note options source).toList.count '\n' = entry.strayLineFeeds options source := by
  obtain ⟨hnote, hclass⟩ | ⟨ref, constants, -, -, -, hnote, hclass⟩ :=
    entry.note_cases options source
  · rw [hnote, strayLineFeeds, hclass]
    rfl
  · rw [hnote, strayLineFeeds, hclass, ref.count_newline_note constants]

theorem count_newline_line :
    (entry.line options source).toList.count '\n' = entry.strayLineFeeds options source + 1 := by
  have hheading := List.count_eq_zero.mpr (entry.newline_not_mem_heading options)
  rw [line_eq, String.toList_append, String.toList_append, List.count_append, List.count_append,
    hheading, count_newline_note, Nat.zero_add]
  rfl

/-- Where there is a note, a constant is loaded, and two spaces and two slashes come first. -/
theorem note_eq :
    entry.note options source = "" ∨
      (∃ ref, entry.instruction = .ldc ref) ∧ source.isSome = true ∧
        options.resolveConstants = true ∧
        ∃ rest, entry.note options source = "  //" ++ rest := by
  obtain ⟨hnote, -⟩ | ⟨ref, constants, hldc, rfl, hresolve, hnote, -⟩ :=
    entry.note_cases options source
  · exact .inl hnote
  · obtain ⟨rest, hrest⟩ := ref.exists_note_eq constants
    exact .inr ⟨⟨ref, hldc⟩, rfl, hresolve, rest, hnote.trans hrest⟩

end Entry

namespace Code

variable {options : ListingOptions} {source : Option ConstantSource} {code : Code}

theorem toList_listing :
    (code.listing options source).toList =
      (code.entries.map fun entry =>
        (entry.heading options ++ entry.note options source).toList).flatMap
          fun line => line ++ ['\n'] := by
  rw [listing, String.toList_join, List.flatMap_map, List.flatMap_map]
  simp only [Entry.line_eq, String.toList_append]
  rfl

/-- **The line feeds of a listing**: one for each instruction, and the stray ones. -/
theorem count_newline_listing :
    (code.listing options source).toList.count '\n' =
      code.size + (code.entries.map (·.strayLineFeeds options source)).sum := by
  rw [listing, String.toList_join, size]
  induction code.entries with
  | nil => rfl
  | cons entry rest ih =>
    rw [List.map_cons, List.flatMap_cons, List.count_append, ih, Entry.count_newline_line,
      List.length_cons, List.map_cons, List.sum_cons]
    omega

/-- A listing that is not empty ends in a line feed. -/
theorem newline_suffix_listing (h : code.entries ≠ []) :
    ['\n'] <:+ (code.listing options source).toList := by
  obtain ⟨front, last, hentries⟩ := List.eq_nil_or_concat code.entries |>.resolve_left h
  rw [toList_listing, hentries, List.concat_eq_append, List.map_append, List.flatMap_append]
  simp only [List.map_singleton, List.flatMap_singleton]
  rw [← List.append_assoc]
  exact List.suffix_append _ _

/-- **A listing without stray line feeds** is cut into the lines of its instructions. -/
theorem splitOn_listing (h : ∀ entry ∈ code.entries, entry.strayLineFeeds options source = 0) :
    (code.listing options source).toList.splitOn '\n' =
      code.entries.map (fun entry =>
        (entry.heading options ++ entry.note options source).toList) ++ [[]] := by
  rw [toList_listing, Text.splitOn_flatMap_lines]
  intro line hline
  obtain ⟨entry, hentry, rfl⟩ := List.mem_map.mp hline
  rw [String.toList_append, List.mem_append, not_or]
  refine ⟨entry.newline_not_mem_heading options, List.count_eq_zero.mp ?_⟩
  rw [Entry.count_newline_note, h entry hentry]

/-- **The lines of a listing**. There are as many line feeds as instructions, and those in the names
of classes; without these the lines are the instructions, each with its offset, its text and a note
that shows where it begins. -/
theorem lines_of_listing (options : ListingOptions) (source : Option ConstantSource)
    (code : Code) :
    (code.listing options source).toList.count '\n' =
      code.size + (code.entries.map (·.strayLineFeeds options source)).sum ∧
    (code.entries ≠ [] → ['\n'] <:+ (code.listing options source).toList) ∧
    (∀ entry ∈ code.entries, entry.note options source = "" ∨
      (∃ ref, entry.instruction = .ldc ref) ∧ source.isSome = true ∧
        options.resolveConstants = true ∧
        ∃ rest, entry.note options source = "  //" ++ rest) ∧
    ((∀ entry ∈ code.entries, entry.strayLineFeeds options source = 0) →
      (code.listing options source).toList.splitOn '\n' =
        code.entries.map (fun entry =>
          (entry.heading options ++ entry.note options source).toList) ++ [[]]) :=
  ⟨count_newline_listing, newline_suffix_listing, fun entry _ => entry.note_eq options source,
    splitOn_listing⟩

/-- A text of two lines at index 2, and a text object that names it at index 1. -/
def twoLineText : ConstantSource where
  constantAt index :=
    if index = 1 then some (.string 2) else if index = 2 then some (.utf8 "a\nb") else none

/-- The line feed of a quoted text is escaped. -/
theorem lines_of_listing_quoted :
    let code := ofInstructions [.ldc (.short 1), .fstore (.byte 9)]
    (∀ entry ∈ code.entries, entry.strayLineFeeds {} (some twoLineText) = 0) ∧
      (code.listing {} (some twoLineText)).toList.splitOn '\n' =
        ["   0: ldc 1  // \"a\\nb\"".toList, "   2: fstore 9".toList, []] := by
  intro code
  have hstray : ∀ entry ∈ code.entries, entry.strayLineFeeds {} (some twoLineText) = 0 := by
    decide
  refine ⟨hstray, ?_⟩
  rw [(lines_of_listing {} (some twoLineText) code).2.2.2 hstray]
  decide

/-- **The name of a class breaks its line**: this one instruction takes two. -/
theorem not_one_line_each :
    ¬∀ (options : ListingOptions) (source : Option ConstantSource) (code : Code),
      (code.listing options source).toList.count '\n' = code.size := by
  intro hall
  have hcount := hall {} (some ((ConstantPool.addClass "a\nb").runOn .new).2.source)
    (ofInstructions [.ldc (.short 2)])
  rw [count_newline_listing] at hcount
  exact absurd hcount (by decide +kernel)

end Code

end Bytecode
