import AliasErasure.Proofs.Text.Split
import AliasErasure.Run.Options

set_option autoImplicit false

/-! # The grammar of parameter texts

What a parameter text may say is given by rules: the forms that a setting may have, each with what
it asks for (`Setting.Form`), and the faults of all others, each with its error (`Setting.Fault`).
A setting has a form or a fault, and one step of the reader does what the rule says
(`Options.set_of_form`, `Options.set_of_fault`).

The reader goes through the segments of the text, so it takes what they ask for one after the
other, or stops at the first that is at fault. Of all that is asked for in one matter the last
remains (`Options.foldl_apply`): the result is what a reader sees who looks for the last segment in
each matter. Texts that are joined by a comma have the segments of both.
-/

namespace AliasErasure

/-! ## Settings -/

/-- What a setting asks for. -/
inductive Setting where
  | importPaths (on : Bool)
  | emit (which : Emit)
  | marker (text : String)
  | validate (on : Bool)
  | stripNonfunctional (on : Bool)
  /-- Support for plugins is declined, which changes nothing. -/
  | noPlugins

/-- The truth values as they may be written. -/
inductive TruthText : String → Bool → Prop
  | empty : TruthText "" true
  | yes : TruthText "true" true
  | no : TruthText "false" false

/-- The forms of a setting: its name, its value, and what it asks for. -/
inductive Setting.Form : String → String → Setting → Prop
  | importPaths : Form "paths" "import" (.importPaths true)
  | sourceRelative : Form "paths" "source_relative" (.importPaths false)
  | emitSource : Form "emit" "proto" (.emit .source)
  | emitEmbedding : Form "emit" "embed" (.emit .embedding)
  | emitAll : Form "emit" "all" (.emit .all)
  | marker {value : String} (h : value ≠ "") : Form "alias_marker" value (.marker value)
  | validate {value : String} {on : Bool} (h : TruthText value on) :
      Form "validate" value (.validate on)
  | stripNonfunctional {value : String} {on : Bool} (h : TruthText value on) :
      Form "experimental_strip_nonfunctional_codegen" value (.stripNonfunctional on)
  | noPlugins : Form "plugins" "" .noPlugins

/-- The names of settings. -/
def settingNames : List String :=
  ["paths", "emit", "alias_marker", "validate", "experimental_strip_nonfunctional_codegen",
    "plugins"]

/-- The faults of a setting: its name, its value, and the error. -/
inductive Setting.Fault : String → String → Error → Prop
  | paths {value : String} (h : value ∉ ["import", "source_relative"]) :
      Fault "paths" value (.invalidParameter "paths" s!"unknown path type '{value}'")
  | emit {value : String} (h : value ∉ ["proto", "embed", "all"]) :
      Fault "emit" value (.invalidParameter "emit" s!"expected proto, embed or all, got '{value}'")
  | marker : Fault "alias_marker" "" (.invalidParameter "alias_marker" "marker must not be empty")
  | truth {name value : String}
      (hname : name ∈ ["validate", "experimental_strip_nonfunctional_codegen"])
      (h : value ∉ ["", "true", "false"]) :
      Fault name value (.invalidParameter name s!"expected true or false, got '{value}'")
  | plugins {value : String} (h : value ≠ "") : Fault "plugins" value .pluginsUnsupported
  | unknown {name value : String} (h : name ∉ settingNames) :
      Fault name value (.invalidParameter name "unknown parameter")

/-- The options after what one setting asks for. -/
def Options.apply (o : Options) : Setting → Options
  | .importPaths on => { o with output := { o.output with importPaths := on } }
  | .emit which => { o with emit := which }
  | .marker text => { o with marker := text }
  | .validate on => { o with validate := on }
  | .stripNonfunctional on => { o with output := { o.output with stripNonfunctional := on } }
  | .noPlugins => o

section Step

variable {name value : String}

theorem TruthText.truthValue_eq {on : Bool} (h : TruthText value on) (name : String) :
    Options.truthValue name value = .ok on := by
  cases h <;> rfl

theorem truthText_or_not_mem (value : String) :
    (∃ on, TruthText value on) ∨ value ∉ ["", "true", "false"] := by
  by_cases h : value ∈ ["", "true", "false"]
  · simp only [List.mem_cons, List.not_mem_nil, or_false] at h
    rcases h with rfl | rfl | rfl
    · exact Or.inl ⟨_, .empty⟩
    · exact Or.inl ⟨_, .yes⟩
    · exact Or.inl ⟨_, .no⟩
  · exact Or.inr h

theorem Options.truthValue_of_not_mem (h : value ∉ ["", "true", "false"]) (name : String) :
    truthValue name value =
      .error (.invalidParameter name s!"expected true or false, got '{value}'") := by
  simp only [List.mem_cons, List.not_mem_nil, or_false, not_or] at h
  rw [truthValue, if_neg (not_or.mpr ⟨h.1, h.2.1⟩), if_neg h.2.2]

/-- A setting of one of the forms is accepted, and does what the form says. -/
theorem Options.set_of_form {setting : Setting} (h : Setting.Form name value setting)
    (o : Options) : o.set name value = .ok (o.apply setting) := by
  cases h with
  | importPaths => rfl
  | sourceRelative => rfl
  | emitSource => rfl
  | emitEmbedding => rfl
  | emitAll => rfl
  | marker h => simp only [Options.set, if_neg h, Options.apply]
  | validate h => simp only [Options.set, h.truthValue_eq, Options.apply, Except.map]
  | stripNonfunctional h => simp only [Options.set, h.truthValue_eq, Options.apply, Except.map]
  | noPlugins => rfl

/-- A setting at fault is refused with the error of the fault, whatever the options so far. -/
theorem Options.set_of_fault {e : Error} (h : Setting.Fault name value e) (o : Options) :
    o.set name value = .error e := by
  cases h with
  | paths h =>
      simp only [List.mem_cons, List.not_mem_nil, or_false, not_or] at h
      simp only [Options.set]
      split <;> simp_all
  | emit h =>
      simp only [List.mem_cons, List.not_mem_nil, or_false, not_or] at h
      simp only [Options.set]
      split <;> simp_all
  | marker => rfl
  | truth hname h =>
      have htruth : truthValue name value = .error _ := truthValue_of_not_mem h name
      simp only [List.mem_cons, List.not_mem_nil, or_false] at hname
      rcases hname with rfl | rfl
      · simp only [Options.set, htruth, Except.map]
      · simp only [Options.set, htruth, Except.map]
  | plugins h => simp only [Options.set, if_neg h]
  | unknown h =>
      simp only [settingNames, List.mem_cons, List.not_mem_nil, or_false, not_or] at h
      rw [Options.set]
      all_goals simp [h]

theorem Setting.Form.mem_settingNames {setting : Setting} (h : Setting.Form name value setting) :
    name ∈ settingNames := by
  cases h <;> decide

/-- Every setting has a form or a fault. -/
theorem Setting.form_or_fault (name value : String) :
    (∃ setting, Setting.Form name value setting) ∨ ∃ e, Setting.Fault name value e := by
  by_cases hname : name ∈ settingNames
  · simp only [settingNames, List.mem_cons, List.not_mem_nil, or_false] at hname
    rcases hname with rfl | rfl | rfl | rfl | rfl | rfl
    · by_cases hvalue : value ∈ ["import", "source_relative"]
      · simp only [List.mem_cons, List.not_mem_nil, or_false] at hvalue
        rcases hvalue with rfl | rfl
        · exact Or.inl ⟨_, .importPaths⟩
        · exact Or.inl ⟨_, .sourceRelative⟩
      · exact Or.inr ⟨_, .paths hvalue⟩
    · by_cases hvalue : value ∈ ["proto", "embed", "all"]
      · simp only [List.mem_cons, List.not_mem_nil, or_false] at hvalue
        rcases hvalue with rfl | rfl | rfl
        · exact Or.inl ⟨_, .emitSource⟩
        · exact Or.inl ⟨_, .emitEmbedding⟩
        · exact Or.inl ⟨_, .emitAll⟩
      · exact Or.inr ⟨_, .emit hvalue⟩
    · by_cases hvalue : value = ""
      · subst hvalue
        exact Or.inr ⟨_, .marker⟩
      · exact Or.inl ⟨_, .marker hvalue⟩
    · rcases truthText_or_not_mem value with ⟨on, hon⟩ | hvalue
      · exact Or.inl ⟨_, .validate hon⟩
      · exact Or.inr ⟨_, .truth (by simp) hvalue⟩
    · rcases truthText_or_not_mem value with ⟨on, hon⟩ | hvalue
      · exact Or.inl ⟨_, .stripNonfunctional hon⟩
      · exact Or.inr ⟨_, .truth (by simp) hvalue⟩
    · by_cases hvalue : value = ""
      · subst hvalue
        exact Or.inl ⟨_, .noPlugins⟩
      · exact Or.inr ⟨_, .plugins hvalue⟩
  · exact Or.inr ⟨_, .unknown hname⟩

end Step

/-! ## Segments -/

/-- The segments of a parameter text: what stands between commas, without blanks around it. -/
def segments (parameter : String) : List (List Char) :=
  (Text.splitAt ',' parameter.toList).map Text.trimBlanks

/-- The segment says that the setting `name` has this value. The first equals sign divides them;
without one, the value is empty. -/
def Says (segment : List Char) (name value : String) : Prop :=
  '=' ∉ name.toList ∧
    (segment = name.toList ++ '=' :: value.toList ∨ segment = name.toList ∧ value = "")

/-- The segment has one of the forms, and asks for this. -/
def States (segment : List Char) (setting : Setting) : Prop :=
  ∃ name value, Says segment name value ∧ Setting.Form name value setting

/-- The segment is in order: it is empty, or has one of the forms. -/
def Conforms (segment : List Char) : Prop := segment = [] ∨ ∃ setting, States segment setting

/-- The segment has a fault, with this error. -/
def Offends (segment : List Char) (e : Error) : Prop :=
  segment ≠ [] ∧ ∃ name value, Says segment name value ∧ Setting.Fault name value e

/-- The segments, except for those that are empty, ask for these settings. -/
inductive StateAll : List (List Char) → List Setting → Prop
  | nil : StateAll [] []
  | empty {rest : List (List Char)} {settings : List Setting} (hrest : StateAll rest settings) :
      StateAll ([] :: rest) settings
  | cons {segment : List Char} {setting : Setting} {rest : List (List Char)}
      {settings : List Setting} (h : States segment setting) (hrest : StateAll rest settings) :
      StateAll (segment :: rest) (setting :: settings)

/-- Name and value of a segment. -/
def nameAndValue (segment : List Char) : String × String :=
  match Text.cut? '=' segment with
  | some (name, value) => (String.ofList name, String.ofList value)
  | none => (String.ofList segment, "")

/-- Names and values of segments that are not empty. -/
def namesAndValues (segments : List (List Char)) : List (String × String) :=
  (segments.filter (· ≠ [])).map nameAndValue

theorem Options.settings_eq (parameter : String) :
    Options.settings parameter = namesAndValues (segments parameter) := rfl

theorem Says.nameAndValue_eq {segment : List Char} {name value : String}
    (h : Says segment name value) : nameAndValue segment = (name, value) := by
  obtain ⟨hname, rfl | ⟨rfl, rfl⟩⟩ := h
  · rw [nameAndValue, Text.cut?_append_cons hname]
    simp
  · rw [nameAndValue, Text.cut?_of_not_mem hname]
    simp

theorem says_nameAndValue (segment : List Char) :
    Says segment (nameAndValue segment).1 (nameAndValue segment).2 := by
  by_cases h : '=' ∈ segment
  · obtain ⟨name, value, rfl, hname⟩ := List.eq_append_cons_of_mem h
    rw [nameAndValue, Text.cut?_append_cons hname]
    exact ⟨by simpa using hname, Or.inl (by simp)⟩
  · rw [nameAndValue, Text.cut?_of_not_mem h]
    exact ⟨by simpa using h, Or.inr (by simp)⟩

/-- Empty segments are said to have no name, so they are not settings. -/
theorem States.ne_nil {segment : List Char} {setting : Setting} (h : States segment setting) :
    segment ≠ [] := by
  rintro rfl
  obtain ⟨name, value, hsays, hform⟩ := h
  have hname : "" = name := (Prod.mk.inj hsays.nameAndValue_eq).1
  have hmem := hform.mem_settingNames
  rw [← hname] at hmem
  exact absurd hmem (by decide)

theorem conforms_or_offends (segment : List Char) :
    Conforms segment ∨ ∃ e, Offends segment e := by
  by_cases hempty : segment = []
  · exact Or.inl (Or.inl hempty)
  · have hsays := says_nameAndValue segment
    rcases Setting.form_or_fault (nameAndValue segment).1 (nameAndValue segment).2 with
      ⟨setting, hform⟩ | ⟨e, hfault⟩
    · exact Or.inl (Or.inr ⟨setting, _, _, hsays, hform⟩)
    · exact Or.inr ⟨e, hempty, _, _, hsays, hfault⟩

/-- Either all segments are in order, or there is a first one at fault. -/
theorem allConform_or_offends (segments : List (List Char)) :
    (∀ s ∈ segments, Conforms s) ∨
      ∃ before segment after e, segments = before ++ segment :: after ∧
        (∀ s ∈ before, Conforms s) ∧ Offends segment e := by
  induction segments with
  | nil => exact Or.inl (by simp)
  | cons segment rest ih =>
      rcases conforms_or_offends segment with hconforms | ⟨e, he⟩
      · rcases ih with hrest | ⟨before, bad, after, e, rfl, hbefore, he⟩
        · exact Or.inl (List.forall_mem_cons.mpr ⟨hconforms, hrest⟩)
        · -- the first at fault among the others is the first of all
          have hall := List.forall_mem_cons.mpr ⟨hconforms, hbefore⟩
          exact Or.inr ⟨segment :: before, bad, after, e, rfl, hall, he⟩
      · exact Or.inr ⟨[], segment, rest, e, rfl, by simp, he⟩

theorem StateAll.append {xs ys : List (List Char)} {settings settings' : List Setting}
    (h : StateAll xs settings) (h' : StateAll ys settings') :
    StateAll (xs ++ ys) (settings ++ settings') := by
  induction h with
  | nil => exact h'
  | empty _ ih => exact .empty ih
  | cons hstates _ ih => exact .cons hstates ih

theorem exists_stateAll {segments : List (List Char)} (h : ∀ s ∈ segments, Conforms s) :
    ∃ settings, StateAll segments settings := by
  induction segments with
  | nil => exact ⟨[], .nil⟩
  | cons segment rest ih =>
      rw [List.forall_mem_cons] at h
      obtain ⟨settings, hrest⟩ := ih h.2
      rcases h.1 with rfl | ⟨setting, hstates⟩
      · exact ⟨settings, .empty hrest⟩
      · exact ⟨setting :: settings, .cons hstates hrest⟩

theorem StateAll.conforms {segments : List (List Char)} {settings : List Setting}
    (h : StateAll segments settings) : ∀ s ∈ segments, Conforms s := by
  induction h with
  | nil => simp
  | empty _ ih => exact List.forall_mem_cons.mpr ⟨Or.inl rfl, ih⟩
  | cons hstates _ ih => exact List.forall_mem_cons.mpr ⟨Or.inr ⟨_, hstates⟩, ih⟩

/-- Joined by a comma, texts have the segments of both. -/
theorem segments_append (p q : String) : segments (p ++ "," ++ q) = segments p ++ segments q := by
  have htext : (p ++ "," ++ q).toList = p.toList ++ ',' :: q.toList := by simp
  rw [segments, htext, Text.splitAt_append_cons, List.map_append, segments, segments]

/-! ## The reader -/

theorem Options.setAll_append (o : Options) (xs ys : List (String × String)) :
    o.setAll (xs ++ ys) =
      match o.setAll xs with
      | .ok o => o.setAll ys
      | .error e => .error e := by
  induction xs generalizing o with
  | nil => rfl
  | cons x xs ih =>
      rw [List.cons_append, setAll, setAll]
      cases o.set x.1 x.2 with
      | ok o => exact ih o
      | error e => rfl

theorem namesAndValues_append (xs ys : List (List Char)) :
    namesAndValues (xs ++ ys) = namesAndValues xs ++ namesAndValues ys := by
  rw [namesAndValues, List.filter_append, List.map_append, namesAndValues, namesAndValues]

theorem namesAndValues_cons {segment : List Char} (h : segment ≠ []) (rest : List (List Char)) :
    namesAndValues (segment :: rest) = nameAndValue segment :: namesAndValues rest := by
  rw [namesAndValues, List.filter_cons_of_pos (by simpa using h), List.map_cons, namesAndValues]

/-- Segments in order are accepted, and do what they ask for one after the other. -/
theorem StateAll.setAll_eq {segments : List (List Char)} {settings : List Setting}
    (h : StateAll segments settings) (o : Options) :
    o.setAll (namesAndValues segments) = .ok (settings.foldl Options.apply o) := by
  induction h generalizing o with
  | nil => rfl
  | empty _ ih => exact ih o
  | cons hstates _ ih =>
      have hne := hstates.ne_nil
      obtain ⟨name, value, hsays, hform⟩ := hstates
      rw [namesAndValues_cons hne, hsays.nameAndValue_eq, Options.setAll,
        Options.set_of_form hform]
      exact ih _

/-- The reader stops at a segment at fault. -/
theorem Offends.setAll_eq {segment : List Char} {e : Error} (h : Offends segment e)
    (rest : List (List Char)) (o : Options) :
    o.setAll (namesAndValues (segment :: rest)) = .error e := by
  obtain ⟨hne, name, value, hsays, hfault⟩ := h
  rw [namesAndValues_cons hne, hsays.nameAndValue_eq, Options.setAll, Options.set_of_fault hfault]

theorem setAll_of_first_offends {before after : List (List Char)} {segment : List Char} {e : Error}
    (hbefore : ∀ s ∈ before, Conforms s) (h : Offends segment e) (o : Options) :
    o.setAll (namesAndValues (before ++ segment :: after)) = .error e := by
  -- what stands before is accepted, so the reader gets to the segment with some options
  obtain ⟨settings, hsettings⟩ := exists_stateAll hbefore
  rw [namesAndValues_append, Options.setAll_append, hsettings.setAll_eq]
  exact h.setAll_eq after _

/-! ## The last in each matter -/

namespace Setting

def importPaths? : Setting → Option Bool
  | .importPaths on => some on
  | _ => none

def emit? : Setting → Option Emit
  | .emit which => some which
  | _ => none

def marker? : Setting → Option String
  | .marker text => some text
  | _ => none

def validate? : Setting → Option Bool
  | .validate on => some on
  | _ => none

def stripNonfunctional? : Setting → Option Bool
  | .stripNonfunctional on => some on
  | _ => none

end Setting

/-- The last that settings ask for in a matter, and a default if they say nothing of it. -/
def lastOf {α : Type} (matter? : Setting → Option α) (settings : List Setting) (default : α) : α :=
  (settings.filterMap matter?).getLast?.getD default

/-- The options with the last that settings ask for in each matter. -/
def Options.overridden (o : Options) (settings : List Setting) : Options where
  marker := lastOf Setting.marker? settings o.marker
  output := { o.output with
    importPaths := lastOf Setting.importPaths? settings o.output.importPaths
    stripNonfunctional := lastOf Setting.stripNonfunctional? settings o.output.stripNonfunctional }
  emit := lastOf Setting.emit? settings o.emit
  validate := lastOf Setting.validate? settings o.validate

theorem lastOf_cons {α : Type} (matter? : Setting → Option α) (setting : Setting)
    (settings : List Setting) (default : α) :
    lastOf matter? (setting :: settings) default
      = lastOf matter? settings ((matter? setting).getD default) := by
  rw [lastOf, List.filterMap_cons]
  cases matter? setting with
  | none => rfl
  | some a => rw [List.getLast?_cons]; rfl

theorem Options.overridden_cons (o : Options) (setting : Setting) (settings : List Setting) :
    o.overridden (setting :: settings) = (o.apply setting).overridden settings := by
  simp only [overridden, lastOf_cons]
  cases setting <;> rfl

/-- **The last one counts**: to do one after the other what settings ask for is to do the last in
each matter. -/
theorem Options.foldl_apply (o : Options) (settings : List Setting) :
    settings.foldl Options.apply o = o.overridden settings := by
  induction settings generalizing o with
  | nil => rfl
  | cons setting settings ih => rw [List.foldl_cons, ih, overridden_cons]

/-! ## Parameter texts -/

section Parse

variable {p q : String} {o : Options} {e : Error}

theorem parse_eq_ok_iff :
    Options.parse p = .ok o ↔
      ∃ settings, StateAll (segments p) settings ∧ o = ({} : Options).overridden settings := by
  rw [Options.parse, Options.settings_eq]
  constructor
  · intro h
    rcases allConform_or_offends (segments p) with
      hall | ⟨before, segment, after, e, hsplit, hbefore, he⟩
    · obtain ⟨settings, hsettings⟩ := exists_stateAll hall
      rw [hsettings.setAll_eq, Options.foldl_apply] at h
      exact ⟨settings, hsettings, (Except.ok.inj h).symm⟩
    · rw [hsplit, setAll_of_first_offends hbefore he] at h
      cases h
  · rintro ⟨settings, hsettings, rfl⟩
    rw [hsettings.setAll_eq, Options.foldl_apply]

theorem parse_eq_error_iff :
    Options.parse p = .error e ↔ ∃ before segment after,
      segments p = before ++ segment :: after ∧ (∀ s ∈ before, Conforms s) ∧ Offends segment e := by
  rw [Options.parse, Options.settings_eq]
  constructor
  · intro h
    rcases allConform_or_offends (segments p) with
      hall | ⟨before, segment, after, e', hsplit, hbefore, he⟩
    · obtain ⟨settings, hsettings⟩ := exists_stateAll hall
      rw [hsettings.setAll_eq] at h
      cases h
    · rw [hsplit, setAll_of_first_offends hbefore he] at h
      cases h
      exact ⟨before, segment, after, hsplit, hbefore, he⟩
  · rintro ⟨before, segment, after, hsplit, hbefore, he⟩
    rw [hsplit, setAll_of_first_offends hbefore he]

end Parse

/-- **A parameter text is read by its grammar, and the last setting of each kind counts.** The text
is accepted if and only if all its segments are in order. The options are then the defaults with
the last that its segments ask for in each matter. Otherwise the error is that of the first segment
at fault. So a text followed by a comma and another text is refused with the error of the first,
else with that of the second; and if both are accepted, the options are those of the first with the
last that the segments of the second ask for in each matter. -/
theorem parse_lastWins (p : String) :
    ((∃ o, Options.parse p = .ok o) ↔ ∀ segment ∈ segments p, Conforms segment) ∧
    (∀ o, Options.parse p = .ok o ↔
      ∃ settings, StateAll (segments p) settings ∧ o = ({} : Options).overridden settings) ∧
    (∀ e, Options.parse p = .error e ↔ ∃ before segment after,
      segments p = before ++ segment :: after ∧ (∀ s ∈ before, Conforms s) ∧
        Offends segment e) ∧
    ∀ q,
      (∀ e, Options.parse p = .error e → Options.parse (p ++ "," ++ q) = .error e) ∧
      (∀ o e, Options.parse p = .ok o → Options.parse q = .error e →
        Options.parse (p ++ "," ++ q) = .error e) ∧
      ∀ o o', Options.parse p = .ok o → Options.parse q = .ok o' →
        ∃ settings, StateAll (segments q) settings ∧ o' = ({} : Options).overridden settings ∧
          Options.parse (p ++ "," ++ q) = .ok (o.overridden settings) := by
  refine ⟨?_, fun o => parse_eq_ok_iff, fun e => parse_eq_error_iff, fun q => ⟨?_, ?_, ?_⟩⟩
  · constructor
    · rintro ⟨o, ho⟩
      obtain ⟨settings, hsettings, -⟩ := parse_eq_ok_iff.mp ho
      exact hsettings.conforms
    · intro h
      obtain ⟨settings, hsettings⟩ := exists_stateAll h
      exact ⟨_, parse_eq_ok_iff.mpr ⟨settings, hsettings, rfl⟩⟩
  · intro e he
    obtain ⟨before, segment, after, hsplit, hbefore, hoffends⟩ := parse_eq_error_iff.mp he
    refine parse_eq_error_iff.mpr ⟨before, segment, after ++ segments q, ?_, hbefore, hoffends⟩
    rw [segments_append, hsplit, List.append_assoc, List.cons_append]
  · intro o e ho he
    obtain ⟨settings, hsettings, -⟩ := parse_eq_ok_iff.mp ho
    obtain ⟨before, segment, after, hsplit, hbefore, hoffends⟩ := parse_eq_error_iff.mp he
    refine parse_eq_error_iff.mpr ⟨segments p ++ before, segment, after, ?_, ?_, hoffends⟩
    · rw [segments_append, hsplit, List.append_assoc]
    · exact List.forall_mem_append.mpr ⟨hsettings.conforms, hbefore⟩
  · intro o o' ho ho'
    obtain ⟨xs, hxs, rfl⟩ := parse_eq_ok_iff.mp ho
    obtain ⟨ys, hys, rfl⟩ := parse_eq_ok_iff.mp ho'
    refine ⟨ys, hys, rfl, parse_eq_ok_iff.mpr ⟨xs ++ ys, ?_, ?_⟩⟩
    · rw [segments_append]
      exact hxs.append hys
    · simp only [← Options.foldl_apply, List.foldl_append]

example :
    Options.parse " emit=proto ,, validate,alias_marker=a=b,validate=false, emit=embed"
      = .ok { emit := .embedding, marker := "a=b" } := by
  cbv

end AliasErasure
