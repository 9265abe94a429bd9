import MediaCatalog.Proofs.Files.Folder
import MediaCatalog.Proofs.Schema.Rendering
import MediaCatalog.Proofs.Schema.Session
import MediaCatalog.Schema.Generation

/-!
# Generation — all models files are written, or none

The files are written one after the other, each as soon as it is rendered. Yet a fault that is not
one of the file system leaves no file behind, since a session that has no models file in one
language has none in any (`exists_render_of_render`). What is written before the models is the copy
of the document, and its place is none of theirs.
-/

namespace MediaCatalog

/-! ## 1. Places -/

theorem ModelsFile.isPlain_name (language : Language) : Path.IsPlain (name language) := by
  cases language <;> exact ⟨by decide, by decide, by decide⟩

theorem ModelsFile.name_injective {l l' : Language} (h : name l = name l') : l = l' := by
  revert h
  cases l <;> cases l' <;> decide

theorem Generation.isPlain_schemaFile : Path.IsPlain schemaFile :=
  ⟨by decide, by decide, by decide⟩

/-- The path of the models file of a language. -/
def ModelsFile.path (directory : String) (language : Language) : String :=
  Path.join directory (name language)

/-- The path of the copy of the document. -/
def Generation.schemaPath (directory : String) : String :=
  Path.join directory schemaFile

theorem ModelsFile.place_injective {directory : String} {f : Folder} {l l' : Language}
    (h : f.place (path directory l) = f.place (path directory l')) : l = l' := by
  rw [path, path, Folder.place_join (isPlain_name l), Folder.place_join (isPlain_name l')] at h
  exact name_injective (List.singleton_inj.mp (List.append_cancel_left h))

theorem ModelsFile.place_ne_schemaPath (directory : String) (f : Folder) (language : Language) :
    f.place (path directory language) ≠ f.place (Generation.schemaPath directory) := by
  rw [path, Generation.schemaPath, Folder.place_join (isPlain_name language),
    Folder.place_join Generation.isPlain_schemaFile]
  intro h
  have hname := List.singleton_inj.mp (List.append_cancel_left h)
  revert hname
  cases language <;> decide

/-! ## 2. Writing models files -/

namespace Session
variable {directory : String} {s : Session} {f f' : Folder}

theorem makeDirectory_eq_ok (h : makeDirectory directory f = .ok f') :
    f'.current = f.current ∧ ∀ p, f'.file? p = f.file? p := by
  unfold makeDirectory at h
  split at h
  next g hg =>
    cases h
    obtain ⟨hfiles, hcurrent⟩ := Folder.makeDirectory_eq_ok hg
    exact ⟨hcurrent, fun p => by rw [Folder.file?, hfiles, Folder.file?]⟩
  next => cases h

theorem makeDirectory_eq_error {fault : WriteFault} (h : makeDirectory directory f = .error fault) :
    ∃ cause, fault = .file directory cause := by
  unfold makeDirectory at h
  split at h
  next => cases h
  next cause _ => exact ⟨cause, (Except.error.inj h).symm⟩

theorem writeFile_eq_ok {path : String} {contents : ByteArray}
    (h : writeFile path contents f = .ok f') :
    f'.current = f.current ∧
      ∀ p, f'.file? p = if p = f.place path then some contents else f.file? p := by
  unfold writeFile at h
  split at h
  next g hg =>
    cases h
    exact Folder.write_eq_ok hg
  next => cases h

theorem writeFile_eq_error {path : String} {contents : ByteArray} {fault : WriteFault}
    (h : writeFile path contents f = .error fault) : ∃ cause, fault = .file path cause := by
  unfold writeFile at h
  split at h
  next => cases h
  next cause _ => exact ⟨cause, (Except.error.inj h).symm⟩

/-- What becomes of the first language: it has no models file, or the file cannot be written, or it
is written and the others follow. -/
theorem writeAll_cons {language : Language} {rest : List Language}
    {answer : Except WriteFault (List String)}
    (h : writeAll directory s (language :: rest) f = (f', answer)) :
    (∃ u, s.render language = .error u ∧ f' = f ∧ answer = .error (.unspellable u)) ∨
    ∃ text, s.render language = .ok text ∧
      ((∃ path cause, answer = .error (.file path cause)) ∨
        ∃ g answer', writeFile (ModelsFile.path directory language) text.toUTF8 f = .ok g ∧
          writeAll directory s rest g = (f', answer') ∧
          answer = answer'.map (ModelsFile.path directory language :: ·)) := by
  rw [writeAll] at h
  cases hrender : s.render language with
  | error u =>
    simp only [hrender, Prod.mk.injEq] at h
    exact Or.inl ⟨u, rfl, h.1.symm, h.2.symm⟩
  | ok text =>
    refine Or.inr ⟨text, rfl, ?_⟩
    simp only [hrender] at h
    cases hwrite : writeFile (ModelsFile.path directory language) text.toUTF8 f with
    | error fault =>
      obtain ⟨cause, rfl⟩ := writeFile_eq_error hwrite
      rw [ModelsFile.path] at hwrite
      simp only [hwrite, Prod.mk.injEq] at h
      exact Or.inl ⟨_, cause, h.2.symm⟩
    | ok g =>
      refine Or.inr ⟨g, (writeAll directory s rest g).2, rfl, ?_⟩
      rw [ModelsFile.path] at hwrite
      simp only [hwrite] at h
      cases hrest : writeAll directory s rest g with
      | mk g' answer' =>
        rw [hrest] at h
        cases answer' with
        | ok paths =>
          obtain ⟨rfl, rfl⟩ := Prod.mk.inj h
          exact ⟨rfl, rfl⟩
        | error fault =>
          obtain ⟨rfl, rfl⟩ := Prod.mk.inj h
          exact ⟨rfl, rfl⟩

/-- The folder has the models files of these languages, with what the session renders for them, and
nothing else in it has changed. -/
def HasModels (directory : String) (s : Session) (languages : List Language) (f f' : Folder) : Prop :=
  (∀ language ∈ languages, ∃ text, s.render language = .ok text ∧
    f'.file? (f.place (ModelsFile.path directory language)) = some text.toUTF8) ∧
  ∀ p, (∀ language ∈ languages, p ≠ f.place (ModelsFile.path directory language)) →
    f'.file? p = f.file? p

/-- The first file stays when the others are written, unless its language comes up again. -/
theorem HasModels.cons {language : Language} {rest : List Language} {text : String} {g : Folder}
    (hrender : s.render language = .ok text)
    (hwrite : writeFile (ModelsFile.path directory language) text.toUTF8 f = .ok g)
    (h : HasModels directory s rest g f') : HasModels directory s (language :: rest) f f' := by
  obtain ⟨hcurrent, hfile⟩ := writeFile_eq_ok hwrite
  obtain ⟨hmodels, hothers⟩ := h
  have hplace (text : String) : g.place text = f.place text := Folder.place_congr hcurrent text
  simp only [hplace] at hmodels hothers
  refine ⟨List.forall_mem_cons.mpr ⟨?_, hmodels⟩, fun p hp => ?_⟩
  · by_cases hmem : language ∈ rest
    · exact hmodels language hmem
    · refine ⟨text, hrender, ?_⟩
      rw [hothers _ fun other hother hsame => ?_, hfile, if_pos rfl]
      rw [ModelsFile.place_injective hsame] at hmem
      exact hmem hother
  · obtain ⟨hfirst, hrest⟩ := List.forall_mem_cons.mp hp
    rw [hothers p hrest, hfile, if_neg hfirst]

theorem writeAll_eq_ok {languages : List Language} {paths : List String}
    (h : writeAll directory s languages f = (f', .ok paths)) :
    paths = languages.map (ModelsFile.path directory) ∧ HasModels directory s languages f f' := by
  induction languages generalizing f paths with
  | nil =>
    obtain ⟨rfl, hpaths⟩ := Prod.mk.inj h
    exact ⟨(Except.ok.inj hpaths).symm, by simp, fun _ _ => rfl⟩
  | cons first rest ih =>
    obtain ⟨u, -, -, hanswer⟩ | ⟨text, htext, ⟨path, cause, hanswer⟩ | ⟨g, answer', hwrite, hrest,
      hanswer⟩⟩ := writeAll_cons h
    · cases hanswer
    · cases hanswer
    · cases answer' with
      | error fault => cases hanswer
      | ok paths' =>
        obtain rfl : paths = ModelsFile.path directory first :: paths' := Except.ok.inj hanswer
        obtain ⟨rfl, hmodels⟩ := ih hrest
        exact ⟨rfl, hmodels.cons htext hwrite⟩

theorem writeAll_ne_unspellable (hrender : ∀ language, ∃ text, s.render language = .ok text)
    {languages : List Language} {answer : Except WriteFault (List String)}
    (h : writeAll directory s languages f = (f', answer)) (u : Unspellable) :
    answer ≠ .error (.unspellable u) := by
  induction languages generalizing f answer with
  | nil => rw [← (Prod.mk.inj h).2]; simp
  | cons language rest ih =>
    obtain ⟨u', hu, -⟩ | ⟨text, -, ⟨path, cause, rfl⟩ | ⟨g, answer', -, hrest, rfl⟩⟩ :=
      writeAll_cons h
    · obtain ⟨text, htext⟩ := hrender language
      rw [htext] at hu
      cases hu
    · simp
    · intro hfault
      cases answer' with
      | ok paths => cases hfault
      | error fault => exact ih hrest hfault

/-- A fault of rendering comes up with the first language if at all, before any file is written. -/
theorem writeAll_eq_unspellable {languages : List Language} {u : Unspellable}
    (h : writeAll directory s languages f = (f', .error (.unspellable u))) : f' = f := by
  cases languages with
  | nil => cases (Prod.mk.inj h).2
  | cons language rest =>
    obtain ⟨u', -, hf, -⟩ | ⟨text, htext, -⟩ := writeAll_cons h
    · exact hf
    · exact absurd rfl (writeAll_ne_unspellable (exists_render_of_render htext) h u)

theorem write_eq_ok {languages : List Language} {paths : List String}
    (h : s.write directory languages f = (f', .ok paths)) :
    paths = languages.map (ModelsFile.path directory) ∧ HasModels directory s languages f f' := by
  unfold write at h
  split at h
  next fault _ => cases (Prod.mk.inj h).2
  next g hmake =>
    obtain ⟨hcurrent, hkept⟩ := makeDirectory_eq_ok hmake
    obtain ⟨hpaths, hmodels, hothers⟩ := writeAll_eq_ok h
    have hplace (text : String) : g.place text = f.place text := Folder.place_congr hcurrent text
    simp only [hplace, hkept] at hmodels hothers
    exact ⟨hpaths, hmodels, hothers⟩

theorem write_eq_unspellable {languages : List Language} {u : Unspellable}
    (h : s.write directory languages f = (f', .error (.unspellable u))) (p : Path) :
    f'.file? p = f.file? p := by
  unfold write at h
  split at h
  next fault hmake =>
    obtain ⟨cause, rfl⟩ := makeDirectory_eq_error hmake
    cases (Prod.mk.inj h).2
  next g hmake =>
    rw [writeAll_eq_unspellable h]
    exact (makeDirectory_eq_ok hmake).2 p

/-- The type of a field is a model that was not built. -/
example :
    let s : Session := add ⟨"Tag", "", [⟨"provider", "", .model "Provider", false, true⟩]⟩ {}
    (s.write "out" [.typeScript, .python] {}).2 =
      .error (.unspellable ⟨"Provider", .typeScript⟩) := by
  cbv

end Session

/-! ## 3. A whole generation -/

namespace GenerationFault

/-- The fault is one of the file system. -/
def IsIo : GenerationFault → Prop
  | .write (.file _ _) => True
  | _ => False

/-- The document itself was accepted, but a model that was asked for is missing from it, is none, or
cannot be spelled. -/
def IsPastDocument : GenerationFault → Prop
  | .build _ | .write (.unspellable _) => True
  | .invalidBaseUrl _ _ | .fetch _ | .document _ | .write (.file _ _) => False

end GenerationFault

namespace Generation
variable {config : GenerationConfig} {raw : ByteArray} {f f' : Folder}

theorem raw_of_ofYaml {document : SchemaDocument} (h : SchemaDocument.ofYaml raw = .ok document) :
    document.raw = raw := by
  unfold SchemaDocument.ofYaml at h
  split at h
  · cases h
  · split at h
    · cases h
    · split at h
      · cases h
      · split at h
        · rw [← Except.ok.inj h]
        · cases h

theorem writeSchema_eq_ok {path : Option String}
    (h : writeSchema config raw f = (f', .ok path)) :
    f'.current = f.current ∧
      (path = if config.writeSchema then some (schemaPath config.directory) else none) ∧
      ∀ p, f'.file? p =
        if config.writeSchema = true ∧ p = f.place (schemaPath config.directory) then some raw
        else f.file? p := by
  unfold writeSchema at h
  split at h
  next hcopy =>
    split at h
    next => cases (Prod.mk.inj h).2
    next g hmake =>
      obtain ⟨hcurrent, hkeep⟩ := Session.makeDirectory_eq_ok hmake
      dsimp only at h
      split at h
      next => cases (Prod.mk.inj h).2
      next g' hwrite =>
        obtain ⟨rfl, hpath⟩ := Prod.mk.inj h
        obtain ⟨hcurrent', hfile⟩ := Session.writeFile_eq_ok hwrite
        refine ⟨hcurrent'.trans hcurrent, ?_, fun p => ?_⟩
        · rw [if_pos hcopy]
          exact (Except.ok.inj hpath).symm
        · rw [hfile, hkeep, Folder.place_congr hcurrent]
          simp only [hcopy, true_and]
          rfl
  next hcopy =>
    obtain ⟨rfl, hpath⟩ := Prod.mk.inj h
    refine ⟨rfl, ?_, fun p => (if_neg fun hp => hcopy hp.1).symm⟩
    rw [if_neg hcopy]
    exact (Except.ok.inj hpath).symm

theorem writeSchema_eq_error {fault : WriteFault}
    (h : writeSchema config raw f = (f', .error fault)) :
    ∃ path cause, fault = .file path cause := by
  unfold writeSchema at h
  split at h
  · split at h
    next fault' hmake =>
      obtain ⟨cause, rfl⟩ := Session.makeDirectory_eq_error hmake
      exact ⟨_, cause, (Except.error.inj (Prod.mk.inj h).2).symm⟩
    next g _ =>
      dsimp only at h
      split at h
      next fault' hwrite =>
        obtain ⟨cause, rfl⟩ := Session.writeFile_eq_error hwrite
        exact ⟨_, cause, (Except.error.inj (Prod.mk.inj h).2).symm⟩
      next => cases (Prod.mk.inj h).2
  · cases (Prod.mk.inj h).2

/-- What a document leaves that is not good enough: nothing if it is not even accepted, else the
copy of it, if one is wanted. -/
theorem writeFiles_eq_error {fault : GenerationFault}
    (h : writeFiles config raw f = (f', .error fault)) (hio : ¬fault.IsIo) :
    (¬fault.IsPastDocument ∧ f' = f) ∨
      fault.IsPastDocument ∧ ∀ p, f'.file? p =
        if config.writeSchema = true ∧ p = f.place (schemaPath config.directory) then some raw
        else f.file? p := by
  unfold writeFiles at h
  split at h
  next cause _ =>
    obtain ⟨rfl, hfault⟩ := Prod.mk.inj h
    exact Or.inl ⟨Except.error.inj hfault ▸ id, rfl⟩
  next document hdocument =>
    rw [raw_of_ofYaml hdocument] at h
    split at h
    next g cause hschema =>
      -- The copy can only fail for the file system.
      obtain ⟨path, cause', rfl⟩ := writeSchema_eq_error hschema
      obtain rfl := Except.error.inj (Prod.mk.inj h).2
      exact absurd trivial hio
    next g path hschema =>
      obtain ⟨-, -, hfile⟩ := writeSchema_eq_ok hschema
      split at h
      next s cause _ =>
        obtain ⟨rfl, hfault⟩ := Prod.mk.inj h
        exact Or.inr ⟨Except.error.inj hfault ▸ trivial, hfile⟩
      next s _ =>
        split at h
        next g' cause hwrite =>
          obtain ⟨rfl, hfault⟩ := Prod.mk.inj h
          obtain rfl := Except.error.inj hfault
          cases cause with
          | file path cause' => exact absurd trivial hio
          | unspellable u =>
            exact Or.inr ⟨trivial, fun p => (Session.write_eq_unspellable hwrite p).trans (hfile p)⟩
        next => cases (Prod.mk.inj h).2

/-- What there is after a generation that has fetched these bytes and does not fail. -/
structure Generated (config : GenerationConfig) (raw : ByteArray) (f f' : Folder)
    (report : GenerationReport) : Prop where
  modelCount : report.modelCount = config.models.dedup.length
  modelFiles : report.modelFiles = config.languages.map (ModelsFile.path config.directory)
  schemaPath : report.schemaPath =
    if config.writeSchema then some (schemaPath config.directory) else none
  /-- The models are those of the document that was fetched, in each language that was asked for. -/
  models : ∃ document s, SchemaDocument.ofYaml raw = .ok document ∧
    Session.build document config.models {} = (s, none) ∧
    ∀ language ∈ config.languages, ∃ text, s.render language = .ok text ∧
      f'.file? (f.place (ModelsFile.path config.directory language)) = some text.toUTF8
  copy : config.writeSchema = true →
    f'.file? (f.place (Generation.schemaPath config.directory)) = some raw
  others : ∀ p,
    (∀ language ∈ config.languages, p ≠ f.place (ModelsFile.path config.directory language)) →
    ¬(config.writeSchema = true ∧ p = f.place (Generation.schemaPath config.directory)) →
      f'.file? p = f.file? p

theorem writeFiles_eq_ok {report : GenerationReport}
    (h : writeFiles config raw f = (f', .ok report)) : Generated config raw f f' report := by
  unfold writeFiles at h
  split at h
  next => cases (Prod.mk.inj h).2
  next document hdocument =>
    rw [raw_of_ofYaml hdocument] at h
    split at h
    next => cases (Prod.mk.inj h).2
    next g path hschema =>
      obtain ⟨hcurrent, hpath, hcopied⟩ := writeSchema_eq_ok hschema
      split at h
      next => cases (Prod.mk.inj h).2
      next s hbuild =>
        split at h
        next => cases (Prod.mk.inj h).2
        next g' paths hwrite =>
          obtain ⟨rfl, hreport⟩ := Prod.mk.inj h
          obtain rfl := Except.ok.inj hreport
          have hcount := Session.length_models_of_build (congrArg Prod.snd hbuild)
          rw [hbuild] at hcount
          obtain ⟨hpaths, hmodels, hothers⟩ := Session.write_eq_ok hwrite
          have hplace (text : String) : g.place text = f.place text :=
            Folder.place_congr hcurrent text
          simp only [hplace] at hmodels hothers
          refine ⟨hcount, hpaths, hpath, ⟨document, s, hdocument, hbuild, hmodels⟩, fun hcopy => ?_,
            fun p hmodel hschema => ?_⟩
          · -- No models file has the place of the copy.
            rw [hothers _ fun language _ => (ModelsFile.place_ne_schemaPath _ _ language).symm,
              hcopied, if_pos ⟨hcopy, rfl⟩]
          · rw [hothers p hmodel, hcopied, if_neg hschema]

/-- A fault before the document is accepted leaves the folder alone; a later one leaves the copy of
what was fetched. -/
theorem generate_eq_error {server : Http.Server} {c : Http.Conversation} {fault : GenerationFault}
    (h : generate config server f = (c, f', .error fault)) (hio : ¬fault.IsIo) :
    (¬fault.IsPastDocument ∧ f' = f) ∨
      fault.IsPastDocument ∧ ∃ url raw, schemaUrl config.apiUrl = .ok url ∧
        Http.fetch server agent url {} = (c, .ok raw) ∧ ∀ p, f'.file? p =
          if config.writeSchema = true ∧ p = f.place (schemaPath config.directory) then some raw
          else f.file? p := by
  unfold generate at h
  split at h
  next fault' hurl =>
    obtain ⟨-, hrest⟩ := Prod.mk.inj h
    obtain ⟨rfl, hfault⟩ := Prod.mk.inj hrest
    obtain rfl := Except.error.inj hfault
    refine Or.inl ⟨?_, rfl⟩
    unfold schemaUrl at hurl
    split at hurl
    · cases hurl
    · exact Except.error.inj hurl ▸ id
  next url hurl =>
    split at h
    next c' cause _ =>
      obtain ⟨-, hrest⟩ := Prod.mk.inj h
      obtain ⟨rfl, hfault⟩ := Prod.mk.inj hrest
      exact Or.inl ⟨Except.error.inj hfault ▸ id, rfl⟩
    next c' raw hfetch =>
      obtain ⟨rfl, hfiles⟩ := Prod.mk.inj h
      rcases writeFiles_eq_error hfiles hio with hnothing | ⟨hpast, hfile⟩
      · exact Or.inl hnothing
      · exact Or.inr ⟨hpast, url, raw, hurl, hfetch, hfile⟩

theorem generate_eq_ok {server : Http.Server} {c : Http.Conversation} {report : GenerationReport}
    (h : generate config server f = (c, f', .ok report)) :
    ∃ url raw, schemaUrl config.apiUrl = .ok url ∧ Http.fetch server agent url {} = (c, .ok raw) ∧
      Generated config raw f f' report := by
  unfold generate at h
  split at h
  next => cases (Prod.mk.inj (Prod.mk.inj h).2).2
  next url hurl =>
    split at h
    next => cases (Prod.mk.inj (Prod.mk.inj h).2).2
    next c' raw hfetch =>
      obtain ⟨rfl, hfiles⟩ := Prod.mk.inj h
      exact ⟨url, raw, hurl, hfetch, writeFiles_eq_ok hfiles⟩

/-- If a generation fails, and not for the file system, then no models file has changed, nor any
other file but the copy of the document, which is then what was fetched if the document was accepted
and a copy is wanted. If it does not fail, it reports how many different models were asked for and
one file for each language, and these files and the copy are all that it has changed. The models
files of any session are likewise all written or not at all. -/
theorem generate_all_or_nothing (config : GenerationConfig) (server : Http.Server) (f : Folder) :
    (∀ c f' fault, generate config server f = (c, f', .error fault) → ¬fault.IsIo →
      (∀ language, f'.file? (f.place (ModelsFile.path config.directory language)) =
        f.file? (f.place (ModelsFile.path config.directory language))) ∧
      (∀ p, p ≠ f.place (schemaPath config.directory) → f'.file? p = f.file? p) ∧
      (fault.IsPastDocument → config.writeSchema = true → ∃ url raw,
        schemaUrl config.apiUrl = .ok url ∧ Http.fetch server agent url {} = (c, .ok raw) ∧
          f'.file? (f.place (schemaPath config.directory)) = some raw) ∧
      (¬(fault.IsPastDocument ∧ config.writeSchema = true) →
        f'.file? (f.place (schemaPath config.directory)) =
          f.file? (f.place (schemaPath config.directory)))) ∧
    (∀ c f' report, generate config server f = (c, f', .ok report) → ∃ url raw,
      schemaUrl config.apiUrl = .ok url ∧ Http.fetch server agent url {} = (c, .ok raw) ∧
        Generated config raw f f' report) ∧
    ∀ (s : Session) (directory : String) (languages : List Language) (f' : Folder),
      (∀ paths, s.write directory languages f = (f', .ok paths) →
        (∀ language ∈ languages, ∃ text, s.render language = .ok text ∧
          f'.file? (f.place (ModelsFile.path directory language)) = some text.toUTF8) ∧
        ∀ p, (∀ language ∈ languages, p ≠ f.place (ModelsFile.path directory language)) →
          f'.file? p = f.file? p) ∧
      ∀ u, s.write directory languages f = (f', .error (.unspellable u)) →
        ∀ p, f'.file? p = f.file? p := by
  refine ⟨fun c f' fault h hio => ?_, fun c f' report h => generate_eq_ok h,
    fun s directory languages f' => ⟨fun paths h => (Session.write_eq_ok h).2,
      fun u h => Session.write_eq_unspellable h⟩⟩
  rcases generate_eq_error h hio with ⟨hpast, rfl⟩ | ⟨hpast, url, raw, hurl, hfetch, hfile⟩
  · exact ⟨fun _ => rfl, fun _ _ => rfl, fun h' => absurd h' hpast, fun _ => rfl⟩
  · have hothers : ∀ p, p ≠ f.place (schemaPath config.directory) → f'.file? p = f.file? p := by
      intro p hp
      rw [hfile, if_neg fun h' => hp h'.2]
    refine ⟨fun language => hothers _ (ModelsFile.place_ne_schemaPath _ _ _), hothers,
      fun _ hcopy => ⟨url, raw, hurl, hfetch, ?_⟩, fun hnot => ?_⟩
    · rw [hfile, if_pos ⟨hcopy, rfl⟩]
    · rw [hfile, if_neg fun h' => hnot ⟨hpast, h'.1⟩]

end Generation

end MediaCatalog
