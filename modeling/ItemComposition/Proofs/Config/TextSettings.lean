import ItemComposition.Proofs.Config.SettingPaths
import ItemComposition.Proofs.Config.VariableTexts

/-!
# Settings that are texts

The name of the cache and the directory of the templates are texts. A variable for one of them is put
over whatever the document says, and nothing else depends on what the variable holds: settings that
can be loaded with one text can be loaded with every other, and differ in this setting only. But its
text is what comes of the variable (`Setting.Respelled`), so that a name such as `007` becomes `7`.

## Key results

- `TextSetting.read?_of_alikeBut`: what is read from settings that differ in one text
- `Settings.load_text`: what is loaded for a text in a variable
- `Settings.not_name_kept`: a name that is lost
-/

namespace ItemComposition

open Setting (AlikeBut Apart Respelled IsKept pathOf? stepsOf ofVariable ofVariables)

/-- The settings that are texts. -/
inductive TextSetting where
  | cacheName
  | templateDir

namespace TextSetting

/-- The variable that holds the setting. -/
def variableName : TextSetting → String
  | cacheName => "COMPOSER__CACHE__NAME"
  | templateDir => "COMPOSER__STORAGE__TEMPLATE_DIR"

/-- The path of the setting. -/
def path : TextSetting → String
  | cacheName => "cache.name"
  | templateDir => "storage.template_dir"

/-- The keys that lead to the setting. -/
def keys : TextSetting → List String
  | cacheName => ["cache", "name"]
  | templateDir => ["storage", "template_dir"]

/-- The text of the setting. -/
def get : TextSetting → Settings → String
  | cacheName, s => s.cache.name
  | templateDir, s => s.templateDir

/-- All settings with another text for this one. -/
def set (text : String) : TextSetting → Settings → Settings
  | cacheName, s => { s with cache := { s.cache with name := text } }
  | templateDir, s => { s with templateDir := text }

variable (x : TextSetting)

theorem pathOf?_variableName : pathOf? x.variableName = some x.path := by
  cases x <;> decide +kernel

theorem stepsOf_path : stepsOf x.path = x.keys.map .key := by
  cases x <;> decide +kernel

theorem path_ne_listPath : x.path ≠ Setting.listPath := by
  cases x <;> decide

theorem get_set (text : String) (s : Settings) : x.get (x.set text s) = text := by
  cases x <;> rfl

theorem set_set (text other : String) (s : Settings) : x.set text (x.set other s) = x.set text s := by
  cases x <;> rfl

/-- No rule looks at a text. -/
theorem validate_set (text : String) (s : Settings) : (x.set text s).validate = s.validate := by
  cases x <;> rfl

/-! ## Reading -/

variable {x} {v w a b : Setting} {r : String}

theorem cache_read?_of_alikeBut (h : AlikeBut v w ["name"] a b) (hv : Setting.format.text? v = some r)
    (hw : (Setting.format.text? w).isSome) : CacheSettings.read? Setting.format a =
      (CacheSettings.read? Setting.format b).map fun s => { s with name := r } := by
  obtain ⟨fields, fields', a', b', hFields, hFields', alike, hName, hOther⟩ :=
    h.record? ["name", "policy", "ttl_ms", "capacity"] (by decide)
  cases alike
  obtain ⟨r', hText⟩ := Option.isSome_iff_exists.1 hw
  simp only [CacheSettings.read?, hFields, hFields', hv, hText,
    (hName _ _).1, (hName _ _).2, hOther _ _ "policy" (by decide) (by decide),
    hOther _ _ "ttl_ms" (by decide) (by decide), hOther _ _ "capacity" (by decide) (by decide),
    Option.bind_eq_bind, Option.bind_some, Option.map_bind, Function.comp_def, Option.pure_def,
    Option.map_some]

/-- From settings that differ in one text the same is read, but for this text. -/
theorem read?_of_alikeBut (h : AlikeBut v w x.keys a b) (hv : Setting.format.text? v = some r)
    (hw : (Setting.format.text? w).isSome) : Settings.read? Setting.format a =
      (Settings.read? Setting.format b).map (x.set r) := by
  -- the other fields are read from the same values, and the text is the only one that differs
  cases x with
  | cacheName =>
    obtain ⟨fields, fields', a', b', hFields, hFields', alike, hCache, hOther⟩ :=
      h.record? ["cache", "storage", "retry", "shutdown"] (by decide)
    have hRead := cache_read?_of_alikeBut alike hv hw
    simp only [Settings.read?, hFields, hFields',
      (hCache _ _).1, (hCache _ _).2, hRead, hOther _ _ "storage" (by decide) (by decide),
      hOther _ _ "retry" (by decide) (by decide), hOther _ _ "shutdown" (by decide) (by decide),
      Option.bind_eq_bind, Option.bind_some, Option.map_bind, Option.bind_map, Function.comp_def,
      Option.pure_def, Option.map_some, set]
  | templateDir =>
    obtain ⟨fields, fields', a', b', hFields, hFields', alike, hStorage, hOther⟩ :=
      h.record? ["cache", "storage", "retry", "shutdown"] (by decide)
    obtain ⟨inner, inner', a'', b'', hInner, hInner', alike', hDir, -⟩ :=
      alike.record? ["template_dir"] (by decide)
    cases alike'
    obtain ⟨r', hText⟩ := Option.isSome_iff_exists.1 hw
    simp only [Settings.read?, hFields, hFields',
      (hStorage _ _).1, (hStorage _ _).2, hInner, hInner', (hDir _ _).1, (hDir _ _).2, hv, hText,
      hOther _ _ "cache" (by decide) (by decide),
      hOther _ _ "retry" (by decide) (by decide), hOther _ _ "shutdown" (by decide) (by decide),
      Option.bind_eq_bind, Option.bind_some, Option.map_bind, Function.comp_def, Option.pure_def,
      Option.map_some, set]

/-! ## Loading -/

/-- A variable names neither the setting nor a part of it nor a table that it is in. -/
def SparedBy (x : TextSetting) (name : String) : Prop :=
  ∀ path, pathOf? name = some path → Apart (stepsOf path) (x.keys.map .key)

theorem ofVariables_append (x : TextSetting) (before after : Dict String) (s : String) :
    ofVariables (before ++ (x.variableName, s) :: after) =
      ofVariables before ++ (x.path, ofVariable x.path s) :: ofVariables after := by
  rw [ofVariables, List.filterMap_append, List.filterMap_cons, x.pathOf?_variableName]
  rfl

/-- The layers of two environments that differ in the text of one setting make settings that do. -/
theorem alikeBut_ofVariables (x : TextSetting) (before : Dict String) {after : Dict String}
    (spared : ∀ e ∈ after, x.SparedBy e.1) (s t : String) (under : Setting) :
    AlikeBut (ofVariable x.path s) (ofVariable x.path t) x.keys
      (Setting.putAll (ofVariables (before ++ (x.variableName, s) :: after)) under)
      (Setting.putAll (ofVariables (before ++ (x.variableName, t) :: after)) under) := by
  simp only [ofVariables_append, Setting.putAll, List.foldl_append, List.foldl_cons]
  -- what comes before makes the same settings, and what comes behind keeps them alike
  refine AlikeBut.putAll (Setting.alikeBut_put x.stepsOf_path
    (Setting.merge_ofVariable x.path_ne_listPath s) (Setting.merge_ofVariable x.path_ne_listPath t) _)
    fun layer hLayer => ?_
  obtain ⟨e, hMem, hPath⟩ := List.mem_filterMap.1 hLayer
  obtain ⟨path, hNamed, rfl⟩ := Option.map_eq_some_iff.1 hPath
  exact spared e hMem path hNamed

end TextSetting

theorem Text.toUpper_eq (s : String) : s.toUpper = String.ofList (s.toList.map Char.toUpper) := by
  rw [← String.toList_inj, String.toUpper, String.toList_map, String.toList_ofList]

namespace Settings

/-- What is loaded with one text in a variable is what is loaded with any other, but for this text, and
so is the error if there is one. -/
theorem load_eq_map (x : TextSetting) (document : Option String) (before : Dict String)
    {after : Dict String} {s r : String} (t : String) (spared : ∀ e ∈ after, x.SparedBy e.1) (hr : Respelled s r) :
    load document (before ++ (x.variableName, s) :: after) =
      (load document (before ++ (x.variableName, t) :: after)).map (x.set r) := by
  have hText := (Setting.text?_ofVariable_eq_some_iff x.path_ne_listPath).2 hr
  obtain ⟨r', hOther, -⟩ := Setting.exists_respelled x.path_ne_listPath t
  have hRead (layer : List (String × Setting)) := TextSetting.read?_of_alikeBut
    (x.alikeBut_ofVariables before spared s t (Setting.putAll layer (.table [])))
    hText (Option.isSome_iff_exists.2 ⟨r', hOther⟩)
  have hBind (layer? : Option (List (String × Setting)))
      (read : List (String × Setting) → Option Settings) :
      (layer?.bind fun layer => (read layer).map (x.set r)) = (layer?.bind read).map (x.set r) := by
    cases layer? <;> rfl
  simp only [load, hRead, hBind]
  -- whatever was read with the other text, no rule looks at the text
  generalize Option.bind _ _ = settings?
  cases settings? with
  | none => rfl
  | some settings =>
    simp only [Option.map_some, x.validate_set]
    cases settings.validate <;> rfl

/-- A variable for a text makes settings that have the text that comes of it and are otherwise those
that any text makes. It is the text that the variable holds exactly if this is written as it would be
written anew. -/
theorem load_text (x : TextSetting) (document : Option String) (before after : Dict String)
    (s t : String) (spared : ∀ e ∈ before ++ after, x.SparedBy e.1) :
    ∃ r, Respelled s r ∧ (r = s ↔ IsKept s) ∧
      load document (before ++ (x.variableName, s) :: after) =
        (load document (before ++ (x.variableName, t) :: after)).map (x.set r) ∧
      ∀ settings, load document (before ++ (x.variableName, s) :: after) = .ok settings →
        x.get settings = r := by
  obtain ⟨r, -, hRespelled⟩ := Setting.exists_respelled x.path_ne_listPath s
  have hBehind : ∀ e ∈ after, x.SparedBy e.1 := fun e he =>
    spared e (List.mem_append_right _ he)
  -- how a text is read back depends on the text alone, so one reading serves every document
  have hLoad := fun t => load_eq_map x document before t hBehind hRespelled
  refine ⟨r, hRespelled, ?_, hLoad t, fun settings hSettings => ?_⟩
  · rw [← Setting.respelled_self_iff]
    exact ⟨fun h => h ▸ hRespelled, hRespelled.unique⟩
  · -- the same text loaded twice gives the same settings
    have hSelf := hLoad s
    rw [hSettings] at hSelf
    rw [Except.ok.inj hSelf, x.get_set]

/-- The standard settings meet the rules. -/
theorem validate_standard : standard.validate = .ok () := by
  have hKnown : unknownCode? standard.retry.retryableCodes = none := by
    simp only [unknownCode?, StatusCode.read?, StatusCode.canonicalName, Text.toUpper_eq]
    decide +kernel
  have hMultiplier : (1 : Float) ≤ standard.retry.multiplier := by decide +kernel
  rw [validate, if_neg (by decide), if_neg (by decide), if_neg (by decide),
    if_neg (by simpa using hMultiplier), if_neg (by decide), hKnown]

theorem load_none_eq_ok {environment : Dict String} {settings : Settings}
    (hRead : read? Setting.format (Setting.putAll (ofVariables environment) (.table [])) =
      some settings) (hValid : settings.validate = .ok ()) : load none environment = .ok settings := by
  have hNone : Setting.putAll [] (.table []) = .table [] := rfl
  simp only [load, Option.bind_some, hNone, hRead, hValid]

/-- Where only one text is set, it is all that is not standard. -/
theorem load_only (x : TextSetting) {after : Dict String} {s r : String} (hr : Respelled s r)
    (others : ofVariables after = []) :
    load none ((x.variableName, s) :: after) = .ok (x.set r standard) := by
  have hSpared : ∀ e ∈ after, x.SparedBy e.1 := fun e he path hPath => by
    have hLayer := List.filterMap_eq_nil_iff.1 others e he
    rw [hPath] at hLayer
    cases hLayer
  -- the text does not matter, so that one may be taken which is easy to read
  have hTrue : ofVariable x.path "true" = .bool true := by
    rw [ofVariable]
    exact if_pos (by decide)
  have hLayer : ofVariables ((x.variableName, "true") :: after) = [(x.path, .bool true)] := by
    rw [← List.nil_append (_ :: after), x.ofVariables_append, others, hTrue]
    rfl
  have hRead : read? Setting.format (Setting.putAll [(x.path, .bool true)] (.table [])) =
      some (x.set "true" standard) := by
    rw [Setting.putAll, List.foldl_cons, List.foldl_nil, Setting.put, x.stepsOf_path]
    cases x <;>
    · simp only [TextSetting.keys, List.map_cons, List.map_nil, List.foldr_cons, List.foldr_nil,
        Setting.at_, Setting.atKey, Setting.alterKey]
      rw [Setting.merge_of_text? (r := "true") rfl]
      rfl
  have hLoad : load none ((x.variableName, "true") :: after) = .ok (x.set "true" standard) :=
    load_none_eq_ok (hLayer ▸ hRead) (by rw [x.validate_set, validate_standard])
  have hEq := load_eq_map x none [] "true" hSpared hr
  rw [List.nil_append, List.nil_append] at hEq
  rw [hEq, hLoad, Except.map, x.set_set]

/-- A number with zeros in front of it is a text of its own, but not one that comes back. -/
theorem respelled_007 : Respelled "007" "7" :=
  (Setting.text?_ofVariable_eq_some_iff TextSetting.cacheName.path_ne_listPath).1 (by decide +kernel)

/-- A cache that is called `007` by its variable is called `7`, beside a variable for no setting. -/
theorem load_text_007 : ¬ IsKept "007" ∧ ∃ settings,
    load none [("COMPOSER__CACHE__NAME", "007"), ("HOME", "/root")] = .ok settings ∧
      settings.cache.name = "7" := by
  have hHome : pathOf? "HOME" = none := by decide +kernel
  have hSpared : ∀ e ∈ [] ++ [("HOME", "/root")], TextSetting.cacheName.SparedBy e.1 := by
    rintro e he path hPath
    obtain rfl := List.mem_singleton.1 he
    rw [hHome] at hPath
    cases hPath
  obtain ⟨r, hRespelled, hKept, -, hName⟩ :=
    load_text .cacheName none [] [("HOME", "/root")] "007" "true" hSpared
  have hSeven : r = "7" := hRespelled.unique respelled_007
  have hOthers : ofVariables [("HOME", "/root")] = [] := by
    rw [ofVariables, List.filterMap_cons, hHome]
    rfl
  have hLoad := load_only .cacheName respelled_007 hOthers
  refine ⟨fun h => absurd (hKept.2 h) (by rw [hSeven]; decide), _, hLoad, ?_⟩
  exact (hName _ hLoad).trans hSeven

/-- The layer of the environment may change a name. -/
theorem not_name_kept : ¬ ∀ (document : Option String) (before after : Dict String) (s : String),
    s ≠ "" → '\x00' ∉ s.toList →
    (∃ t settings, load document (before ++ ("COMPOSER__CACHE__NAME", t) :: after) = .ok settings) →
    ∃ settings, load document (before ++ ("COMPOSER__CACHE__NAME", s) :: after) = .ok settings ∧
      settings.cache.name = s := by
  intro h
  have hLoad : load none [("COMPOSER__CACHE__NAME", "007")] =
      .ok (TextSetting.cacheName.set "7" standard) := load_only .cacheName respelled_007 rfl
  obtain ⟨settings, hSettings, hName⟩ := h none [] [] "007" (by decide) (by decide) ⟨"007", _, hLoad⟩
  rw [List.nil_append, hLoad] at hSettings
  obtain rfl := Except.ok.inj hSettings
  exact absurd hName (by decide)

end Settings

end ItemComposition
