import LayoutRule.Command.Run
import Mathlib.Data.List.Basic

/-! # The strict flag

The flag overrides one policy: it puts the strict dedent policy into the tracker that the files leave. A table keeps
its other policy. A list gives way to a table, and the policy behind the end goes with it. -/

namespace LayoutRule

namespace Settings

/-! ### Trackers -/

/-- What the settings say of the tracker. -/
def tracker (settings : Json) : Json :=
  (settings.field? "tracker").getD .null

/-- A tracker is a table or a list. -/
theorem decodeTracker_shape {j : Json} {config : TrackerConfig} (h : decodeTracker j = .ok config) :
    (∃ fields, j = .object fields) ∨ ∃ items, j = .array items := by
  cases j with
  | object fields => exact .inl ⟨fields, rfl⟩
  | array items => exact .inr ⟨items, rfl⟩
  | null | bool | integer | real | string => cases h

/-- What may be missing is there and has been read. -/
theorem mapM_eq_ok_some_iff {ε α β : Type} {read : α → Except ε β} {found : Option α} {b : β} :
    found.mapM read = .ok (some b) ↔ ∃ a, found = some a ∧ read a = .ok b := by
  cases found with
  | none => simp [pure, Except.pure]
  | some a => cases h : read a <;> simp [h, Functor.map, Except.map]

/-- A table is a tracker if it has both policies. -/
theorem decodeTracker_object_iff {fields : List (String × Json)} {config : TrackerConfig} :
    decodeTracker (.object fields) = .ok config ↔
      (∃ j, fields.lookup Policy.dedent.fieldName = some j ∧ decodeDedent j = .ok config.dedent) ∧
        ∃ j, fields.lookup Policy.afterEnd.fieldName = some j ∧ decodeAfterEnd j = .ok config.afterEnd := by
  rw [← mapM_eq_ok_some_iff, ← mapM_eq_ok_some_iff, decodeTracker]
  obtain ⟨dedent, afterEnd⟩ := config
  cases (fields.lookup Policy.dedent.fieldName).mapM decodeDedent with
  | error cause => simp [bind, Except.bind]
  | ok dedent? =>
      cases (fields.lookup Policy.afterEnd.fieldName).mapM decodeAfterEnd with
      | error cause => simp [bind, Except.bind]
      | ok afterEnd? => cases dedent? <;> cases afterEnd? <;> simp [bind, Except.bind, pure, Except.pure]

theorem decodeDedent_name (policy : DedentPolicy) : decodeDedent (.string policy.name) = .ok policy := by
  cases policy with
  | lenient => rfl
  | strict => rfl

/-- A table that gets another dedent policy keeps its policy behind the end. -/
theorem decodeTracker_putField {fields : List (String × Json)} {config : TrackerConfig}
    (h : decodeTracker (.object fields) = .ok config) (policy : DedentPolicy) :
    decodeTracker (.object (Json.putField Policy.dedent.fieldName (.string policy.name) fields)) =
      .ok { config with dedent := policy } := by
  have hother : Policy.afterEnd.fieldName ≠ Policy.dedent.fieldName := by decide
  rw [decodeTracker_object_iff] at h ⊢
  rw [Json.lookup_putField, Json.lookup_putField, if_pos rfl, if_neg hother]
  exact ⟨⟨_, rfl, decodeDedent_name policy⟩, h.2⟩

/-! ### The override -/

/-- Where the dedent policy stands among the settings. -/
def dedentPath : KeyPath :=
  ⟨"tracker", [.child Policy.dedent.fieldName]⟩

theorem read_dedentPath : KeyPath.read "tracker.dedent" = .ok dedentPath := rfl

/-- A dedent policy put into the settings is put into the tracker, which becomes a table if it is none. -/
theorem tracker_put_dedentPath (value : String) (settings : Json) :
    tracker (put dedentPath (.string value) settings) =
      .object (Json.putField Policy.dedent.fieldName (.string value) (tableFields (tracker settings))) := by
  have hroot : lowercase "tracker" = "tracker" := rfl
  have hname : lowercase Policy.dedent.fieldName = Policy.dedent.fieldName := rfl
  have hold : (tableFields settings).lookup "tracker" = settings.field? "tracker" := by
    cases settings with
    | object fields => rfl
    | null | bool | integer | real | string | array => rfl
  simp only [tracker, put, dedentPath, putAt, hroot, mergeField, hname, hold, Json.field?, Json.lookup_putField,
    if_true, Option.getD_some]

/-- Of a list the override leaves nothing, so the policy behind the end is missed. -/
theorem decodeTracker_putField_of_list (policy : DedentPolicy) (items : List Json) :
    decodeTracker
        (.object (Json.putField Policy.dedent.fieldName (.string policy.name) (tableFields (.array items)))) =
      .error (.missingField .afterEnd) := by
  cases policy with
  | lenient => rfl
  | strict => rfl

namespace Loader

/-- A single override is put into the settings that the files leave. -/
theorem store_of_override (layers : List FileLayer) (path : KeyPath) (value : Json) (files : Files) :
    (Loader.mk layers [(path, value)]).store files = ((Loader.mk layers []).store files).map (put path value) := by
  rw [store, store]
  cases layers.foldlM (addFile files) defaults with
  | error cause => rfl
  | ok settings => rfl

/-- What a loader loads is the tracker of its settings. -/
theorem load_eq (loader : Loader) (files : Files) :
    loader.load files =
      (loader.store files).bind fun settings => (decodeTracker (tracker settings)).mapError .decode := by
  simp only [load, tracker]
  cases loader.store files with
  | error cause => rfl
  | ok settings =>
      simp only [bind, Except.bind]
      cases decodeTracker ((settings.field? "tracker").getD .null) with
      | error cause => rfl
      | ok config => rfl

theorem load_eq_ok_iff {loader : Loader} {files : Files} {config : TrackerConfig} :
    loader.load files = .ok config ↔
      ∃ settings, loader.store files = .ok settings ∧ decodeTracker (tracker settings) = .ok config := by
  rw [load_eq]
  cases loader.store files with
  | error cause => simp [Except.bind]
  | ok settings => cases h : decodeTracker (tracker settings) <;> simp [Except.bind, h, Except.mapError]

end Loader

end Settings

/-! ### The flag -/

namespace Command

open Settings

/-- The loader of a run without the flag. -/
def fileLoader : Option String → Loader
  | none => Loader.start
  | some path => Loader.start.withFile path

theorem loadConfig_false (files : Files) (config? : Option String) :
    loadConfig files config? false = (fileLoader config?).load files := by
  cases config? with
  | none => rfl
  | some path => rfl

theorem fileLoader_eq (config? : Option String) : fileLoader config? = ⟨(fileLoader config?).layers, []⟩ := by
  cases config? with
  | none => rfl
  | some path => rfl

theorem loadConfig_true (files : Files) (config? : Option String) :
    loadConfig files config? true =
      Loader.load ⟨(fileLoader config?).layers, [(dedentPath, .string DedentPolicy.strict.name)]⟩ files := by
  have hflag : (fileLoader config?).withOverride "tracker.dedent" (.string "strict") =
      .ok ⟨(fileLoader config?).layers, [(dedentPath, .string DedentPolicy.strict.name)]⟩ := by
    rw [fileLoader_eq, Loader.withOverride, read_dedentPath]
    rfl
  have hload : loadConfig files config? true =
      ((fileLoader config?).withOverride "tracker.dedent" (.string "strict")).bind (Loader.load · files) := by
    cases config? with
    | none => rfl
    | some path => rfl
  rw [hload, hflag, Except.bind]

/-- With the flag a run reads the tracker of the same settings, the strict dedent policy put into it. -/
theorem loadConfig_true_of_store {files : Files} {config? : Option String} {settings : Json}
    (h : (fileLoader config?).store files = .ok settings) :
    loadConfig files config? true =
      (decodeTracker (.object (Json.putField Policy.dedent.fieldName (.string DedentPolicy.strict.name)
        (tableFields (tracker settings))))).mapError .decode := by
  rw [fileLoader_eq] at h
  rw [loadConfig_true, Loader.load_eq, Loader.store_of_override, h, ← tracker_put_dedentPath]
  rfl

/-! ### A single settings file -/

/-- The files of a directory in which only one is known. -/
def singleFile (name text : String) : Files :=
  ⟨fun path => if path = name then .ok text.toUTF8 else .error .notFound⟩

theorem store_singleFile {name text : String} {kind : FileKind} {fields : List (String × Json)}
    (hlocate : locate (singleFile name text) name = .ok (name, kind)) (hparse : parseDocument kind text = .ok fields) :
    (fileLoader (some name)).store (singleFile name text) = .ok (layer defaults fields) := by
  have htext : (singleFile name text).text name = .ok text := Files.text_of_bytes (if_pos rfl)
  have hadd : Loader.addFile (singleFile name text) defaults ⟨name, true⟩ = .ok (layer defaults fields) := by
    simp only [Loader.addFile, Loader.openFile, hlocate, htext, hparse, Except.map]
  simp [fileLoader, Loader.start, Loader.withFile, Loader.store, hadd, bind, Except.bind, pure, Except.pure]

/-! ### With the flag and without -/

/-- A run that loads its settings without the flag finds the tracker in a table or in a list. If it is a table, the
flag changes the dedent policy and nothing else. If it is a list, the run with the flag misses the policy behind the
end. -/
theorem strict_on_tables_and_lists {files : Files} {config? : Option String} {config : TrackerConfig}
    (h : loadConfig files config? false = .ok config) :
    ∃ settings, (fileLoader config?).store files = .ok settings ∧
      ((∃ fields, tracker settings = .object fields) ∧
          loadConfig files config? true = .ok ⟨.strict, config.afterEnd⟩ ∨
        (∃ items, tracker settings = .array items) ∧
          loadConfig files config? true = .error (.decode (.missingField .afterEnd))) := by
  rw [loadConfig_false] at h
  obtain ⟨settings, hstore, hdecode⟩ := Loader.load_eq_ok_iff.mp h
  have hstrict := loadConfig_true_of_store hstore
  refine ⟨settings, hstore, ?_⟩
  rcases decodeTracker_shape hdecode with ⟨fields, hfields⟩ | ⟨items, hitems⟩
  · left
    rw [hfields] at hdecode hstrict
    refine ⟨⟨fields, hfields⟩, ?_⟩
    rw [hstrict, tableFields, decodeTracker_putField hdecode]
    rfl
  · right
    rw [hitems, decodeTracker_putField_of_list] at hstrict
    exact ⟨⟨items, hitems⟩, hstrict⟩

/-- A file that only says what follows the end keeps its word under the flag. -/
theorem strict_on_tables_and_lists_layered :
    let files := singleFile "c.toml" "[tracker]\nafter_end = \"fail\"\n"
    loadConfig files (some "c.toml") false = .ok ⟨.lenient, .fail⟩ ∧
      loadConfig files (some "c.toml") true = .ok ⟨.strict, .fail⟩ := by
  intro files
  have hparse : parseDocument .toml "[tracker]\nafter_end = \"fail\"\n" =
      .ok [("tracker", .object [("after_end", .string "fail")])] := by decide +kernel
  have hstore : (fileLoader (some "c.toml")).store files = .ok
      (.object [("tracker", .object [("dedent", .string "lenient"), ("after_end", .string "fail")])]) :=
    store_singleFile rfl hparse
  have hload : loadConfig files (some "c.toml") false = .ok ⟨.lenient, .fail⟩ := by
    rw [loadConfig_false, Loader.load_eq, hstore]
    rfl
  refine ⟨hload, ?_⟩
  obtain ⟨settings, hsettings, ⟨-, hstrict⟩ | ⟨⟨items, hitems⟩, -⟩⟩ := strict_on_tables_and_lists hload
  · exact hstrict
  · rw [hstore] at hsettings
    cases hsettings
    cases hitems

/-- A file that gives the tracker as a list is good without the flag and no good with it. -/
theorem strict_loses_list :
    let files := singleFile "c.json" "\x7b\"tracker\":[\"lenient\",\"fail\"]\x7d"
    loadConfig files (some "c.json") false = .ok ⟨.lenient, .fail⟩ ∧
      loadConfig files (some "c.json") true = .error (.decode (.missingField .afterEnd)) ∧
      loadConfig files (some "c.json") true ≠ .ok ⟨.strict, .fail⟩ := by
  intro files
  have hparse : parseDocument .json "\x7b\"tracker\":[\"lenient\",\"fail\"]\x7d" =
      .ok [("tracker", .array [.string "lenient", .string "fail"])] := by decide +kernel
  have hstore : (fileLoader (some "c.json")).store files = .ok
      (.object [("tracker", .array [.string "lenient", .string "fail"])]) :=
    store_singleFile rfl hparse
  have hload : loadConfig files (some "c.json") false = .ok ⟨.lenient, .fail⟩ := by
    rw [loadConfig_false, Loader.load_eq, hstore]
    rfl
  have hstrict : loadConfig files (some "c.json") true = .error (.decode (.missingField .afterEnd)) := by
    rw [loadConfig_true_of_store hstore]
    exact congrArg (Except.mapError LoadError.decode) (decodeTracker_putField_of_list .strict _)
  refine ⟨hload, hstrict, ?_⟩
  rw [hstrict]
  intro hok
  cases hok

end Command

end LayoutRule
