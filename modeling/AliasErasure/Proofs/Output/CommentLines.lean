import AliasErasure.Proofs.Output.Bare
import AliasErasure.Proofs.Output.Body
import AliasErasure.Proofs.Text.Split

set_option autoImplicit false

/-! # Comments stay in their lines

A comment is written line by line, each line with indentation and two slashes in front. Whatever
the text of a comment, no part of it gets to the start of a line: the lines of a text have no line
feeds (`Text.not_mem_of_mem_lines`), and comments are written between other lines, at every depth
(`fileLines_feedless`). So writing comments adds lines to the source text and changes nothing
else (`comments_add_lines`).
-/

namespace AliasErasure

open Descriptor (FileProto)

/-! ## Texts line by line -/

/-- The text `full` is the text `bare` with lines added to it, each of which is indentation, two
slashes and a text without line feed. -/
inductive CommentLinesAdded (indent : String) : List Char → List Char → Prop where
  | done : CommentLinesAdded indent [] []
  | line {text bare full : List Char} (htext : '\n' ∉ text)
      (h : CommentLinesAdded indent bare full) :
      CommentLinesAdded indent (text ++ '\n' :: bare) (text ++ '\n' :: full)
  | comment {level : Nat} {text bare full : List Char} (htext : '\n' ∉ text)
      (h : CommentLinesAdded indent bare full) :
      CommentLinesAdded indent bare
        ((Line.indentation indent level).toList ++ '/' :: '/' :: text ++ '\n' :: full)

/-- A line of a text is a comment: after blanks, it starts with two slashes. -/
def isCommentText (line : List Char) : Bool :=
  ['/', '/'].isPrefixOf (line.dropWhile fun c => c = ' ' || c = '\t')

/-- A text without the lines that are comments. -/
def withoutComments (text : List Char) : List Char :=
  ['\n'].intercalate ((Text.splitAt '\n' text).filter fun line => !isCommentText line)

/-- **The lines of a text have no line feeds**, whatever the text. -/
theorem Text.not_mem_of_mem_lines {text line : List Char} (h : line ∈ Text.lines text) :
    '\n' ∉ line := by
  have hended : ∀ part ∈ (Text.splitAt '\n' text).dropLast.map Text.dropReturn, '\n' ∉ part := by
    intro part hpart
    obtain ⟨whole, hwhole, rfl⟩ := List.mem_map.mp hpart
    have hfeedless := Text.not_mem_of_mem_splitAt (List.dropLast_subset _ hwhole)
    rw [Text.dropReturn]
    split
    · exact fun hmem => hfeedless (List.dropLast_subset _ hmem)
    · exact hfeedless
  rw [Text.lines] at h
  split at h
  · next c rest hlast =>
    rcases List.mem_append.mp h with hmem | hmem
    · exact hended line hmem
    · rw [List.mem_singleton.mp hmem]
      exact Text.not_mem_of_mem_splitAt (List.mem_of_getLast? hlast)
  · exact hended line h

/-! ## Adding lines -/

section Added

variable {indent : String} {bare full : List Char}

/-- Whatever ends in a line feed can stand in front on both sides. -/
theorem CommentLinesAdded.append (h : CommentLinesAdded indent bare full) (text : List Char) :
    CommentLinesAdded indent (text ++ '\n' :: bare) (text ++ '\n' :: full) := by
  -- the lines of `text` are cut off one by one, the characters of each being collected first
  have hcollect : ∀ start : List Char, '\n' ∉ start → CommentLinesAdded indent
      (start ++ text ++ '\n' :: bare) (start ++ text ++ '\n' :: full) := by
    induction text with
    | nil =>
        intro start hstart
        rw [List.append_nil]
        exact .line hstart h
    | cons c text ih =>
        intro start hstart
        by_cases hc : c = '\n'
        · subst hc
          have hrest := ih [] List.not_mem_nil
          rw [List.append_assoc, List.append_assoc]
          exact .line hstart hrest
        · have hmore : '\n' ∉ start ++ [c] := by simp [hstart, Ne.symm hc]
          have hrest := ih (start ++ [c]) hmore
          rwa [List.append_assoc start, List.singleton_append] at hrest
  exact hcollect [] List.not_mem_nil

theorem mem_of_mem_indentation {level : Nat} {c : Char}
    (h : c ∈ (Line.indentation indent level).toList) : c ∈ indent.toList := by
  rw [Line.indentation, String.toList_join] at h
  obtain ⟨once, honce, hc⟩ := List.mem_flatMap.mp h
  rwa [List.eq_of_mem_replicate honce] at hc

/-- After blanks, two slashes make a comment. -/
theorem isCommentText_of_blank {blanks : List Char} (h : ∀ c ∈ blanks, c = ' ' ∨ c = '\t')
    (text : List Char) : isCommentText (blanks ++ '/' :: '/' :: text) = true := by
  have hskipped : ∀ c ∈ blanks, (c = ' ' || c = '\t') = true := by
    intro c hc
    simpa using h c hc
  rw [isCommentText, List.dropWhile_append_of_pos hskipped]
  rfl

/-- **Without comments the texts are the same**, provided that indentation is blank. -/
theorem CommentLinesAdded.withoutComments_eq (h : CommentLinesAdded indent bare full)
    (hindent : ∀ c ∈ indent.toList, c = ' ' ∨ c = '\t') :
    withoutComments full = withoutComments bare := by
  have hblank : ∀ level, ∀ c ∈ (Line.indentation indent level).toList, c = ' ' ∨ c = '\t' :=
    fun level c hc => hindent c (mem_of_mem_indentation hc)
  have hlines : (Text.splitAt '\n' full).filter (fun line => !isCommentText line)
      = (Text.splitAt '\n' bare).filter fun line => !isCommentText line := by
    induction h with
    | done => rfl
    | line htext _ ih =>
        rw [Text.splitAt_append htext, Text.splitAt_append htext, List.filter_cons,
          List.filter_cons, ih]
    | @comment level text bare full htext _ ih =>
        have hfeedless : '\n' ∉ (Line.indentation indent level).toList ++ '/' :: '/' :: text := by
          simp only [List.mem_append, List.mem_cons, not_or]
          refine ⟨fun hmem => ?_, by decide, by decide, htext⟩
          rcases hblank level _ hmem with heq | heq
          all_goals cases heq
        have hcomment := isCommentText_of_blank (hblank level) text
        rw [Text.splitAt_append hfeedless, List.filter_cons_of_neg (by simp [hcomment]), ih]
  rw [withoutComments, withoutComments, hlines]

end Added

/-! ## Lines without line feeds -/

/-- If a line is a comment, it has no line feed. -/
def Line.Feedless : Line → Prop
  | .comment _ text => '\n' ∉ text.toList
  | .code _ _ => True

@[simp]
theorem Line.feedless_code (level : Nat) (text : String) : (Line.code level text).Feedless :=
  trivial

section Feedless

variable (dialect : Dialect) (level : Nat)

theorem commentLines_feedless (c : Comments) : ∀ line ∈ commentLines level c, line.Feedless := by
  intro line hline
  obtain ⟨cs, hcs, rfl⟩ := List.mem_map.mp hline
  show '\n' ∉ (String.ofList cs).toList
  rw [String.toList_ofList]
  exact Text.not_mem_of_mem_lines hcs

example : commentLines 1 { leading := " An entry.\n\x7d\r\n\nmessage Leak \x7b\n" }
    = [.comment 1 " An entry.", .comment 1 "\x7d", .comment 1 "",
      .comment 1 "message Leak \x7b"] := by
  decide

theorem closingLines_feedless : ∀ line ∈ closingLines level, line.Feedless := by
  rw [closingLines]
  split
  · simp [Line.blank]
  · simp

theorem enumLines_feedless (e : EnumType) : ∀ line ∈ enumLines level e, line.Feedless := by
  rw [enumLines]
  simp only [List.forall_mem_append, List.forall_mem_cons, List.forall_mem_map]
  exact ⟨⟨commentLines_feedless level e.comments, trivial, fun _ _ => trivial⟩,
    closingLines_feedless level⟩

theorem bodyItemLines_feedless (m : Message) (item : BodyItem) :
    ∀ line ∈ bodyItemLines dialect level m item, line.Feedless := by
  cases item with
  | field x =>
      rw [bodyItemLines, fieldLines]
      simp only [List.forall_mem_append]
      exact ⟨commentLines_feedless level x.comments, by simp⟩
  | oneof position =>
      rw [bodyItemLines, oneofLines]
      simp only [List.cons_append, List.forall_mem_cons, List.forall_mem_append,
        List.forall_mem_flatMap]
      exact ⟨trivial, fun x _ => ⟨commentLines_feedless (level + 1) x.comments, by simp⟩, by simp⟩

/-- **The comments of a message have no line feeds**, at whatever depth they stand. -/
theorem messageLines_feedless (m : Message) :
    ∀ level, ∀ line ∈ messageLines dialect level m, line.Feedless := by
  induction m using Message.nestedInduction with
  | step m ih =>
      intro level
      have hnested : ∀ line ∈ nestedLines dialect (level + 1) m.nested, line.Feedless := by
        rw [nestedLines_eq, List.forall_mem_flatMap]
        exact fun x hx => ih x (List.mem_of_mem_filter hx) (level + 1)
      rw [messageLines_eq]
      simp only [List.forall_mem_append, List.forall_mem_cons, List.forall_mem_flatMap]
      exact ⟨⟨⟨⟨commentLines_feedless level m.comments, trivial, hnested⟩,
        fun e _ => enumLines_feedless (level + 1) e⟩,
        fun item _ => bodyItemLines_feedless dialect (level + 1) m item⟩,
        closingLines_feedless level⟩

theorem paragraph_feedless (texts : List String) : ∀ line ∈ paragraph texts, line.Feedless := by
  rw [paragraph]
  split
  · exact List.forall_mem_nil _
  · simp only [List.forall_mem_append, List.forall_mem_map, List.forall_mem_singleton]
    exact ⟨fun _ _ => trivial, trivial⟩

theorem fileLines_feedless (f : File) : ∀ line ∈ fileLines f, line.Feedless := by
  have hservice : ∀ service, ∀ line ∈ serviceLines service, line.Feedless := by
    intro service
    rw [serviceLines]
    simp only [List.cons_append, List.forall_mem_cons, List.forall_mem_append, List.forall_mem_map]
    exact ⟨trivial, fun _ _ => trivial, closingLines_feedless 0⟩
  rw [fileLines]
  simp only [List.forall_mem_append, List.forall_mem_flatMap]
  exact ⟨⟨⟨⟨⟨⟨⟨paragraph_feedless _, paragraph_feedless _⟩, paragraph_feedless _⟩,
    paragraph_feedless _⟩, paragraph_feedless _⟩, fun service _ => hservice service⟩,
    fun m _ => messageLines_feedless f.dialect m 0⟩, fun e _ => enumLines_feedless 0 e⟩

end Feedless

/-! ## Two source texts -/

/-- **Comments without line feeds add lines** to the lines of code, which may have line feeds. -/
theorem commentLinesAdded_of_feedless (indent : String) {lines : List Line}
    (h : ∀ line ∈ lines, line.Feedless) :
    CommentLinesAdded indent
      (String.join ((writtenLines false lines).map (·.text indent))).toList
      (String.join ((writtenLines true lines).map (·.text indent))).toList := by
  induction lines with
  | nil => exact .done
  | cons line rest ih =>
      rw [List.forall_mem_cons] at h
      have hrest := ih h.2
      cases line with
      | comment level text =>
          have hadded := @CommentLinesAdded.comment indent level _ _ _ h.1 hrest
          simpa [writtenLines, Line.isComment, Line.text] using hadded
      | code level text =>
          have hadded := hrest.append ((Line.indentation indent level).toList ++ text.toList)
          simpa [writtenLines, Line.isComment, Line.text] using hadded

/-- **Writing comments adds lines to the source text**, each of them indentation, two slashes and a
text without line feed. Where indentation is blank, the source text without the lines that are
comments is therefore the same, whether comments are written or not. -/
theorem comments_add_lines (config : OutputConfig)
    (hindent : ∀ c ∈ config.indent.toList, c = ' ' ∨ c = '\t') (f : File) :
    ∃ name bare full,
      renderSource { config with includeComments := false } f = [⟨name, bare⟩] ∧
      renderSource { config with includeComments := true } f = [⟨name, full⟩] ∧
      CommentLinesAdded config.indent bare.toList full.toList ∧
      withoutComments full.toList = withoutComments bare.toList := by
  have hadded := commentLinesAdded_of_feedless config.indent (fileLines_feedless f)
  exact ⟨_, _, _, rfl, rfl, hadded, hadded.withoutComments_eq hindent⟩

/-- A file with a nested message whose comment reads like the end of the message around it. -/
def diaryProto : FileProto where
  name := some "diary.proto"
  package := some "shop"
  syntaxName := some "proto3"
  messageType :=
    [{ name := some "Diary"
       nestedType := [{ name := some "Entry" }] }]
  sourceCodeInfo := some
    { location :=
        [{ path := [4, 0, 3, 0]
           leadingComments := some " An entry.\n\x7d\r\n\nmessage Leak \x7b\n" }] }

/-- The model of `diaryProto`. -/
def diaryFile : File := buildFile defaultMarker true diaryProto

theorem comments_add_lines_diary : (∀ c ∈ "\t".toList, c = ' ' ∨ c = '\t') ∧
    ∃ name bare full,
      renderSource { indent := "\t", includeComments := false } diaryFile = [⟨name, bare⟩] ∧
      renderSource { indent := "\t", includeComments := true } diaryFile = [⟨name, full⟩] ∧
      CommentLinesAdded "\t" bare.toList full.toList ∧
      withoutComments full.toList = withoutComments bare.toList :=
  have hindent : ∀ c ∈ "\t".toList, c = ' ' ∨ c = '\t' :=
    fun _ hc => Or.inr (List.mem_singleton.mp hc)
  ⟨hindent, comments_add_lines { indent := "\t" } hindent diaryFile⟩

end AliasErasure
