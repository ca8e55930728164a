import ApiSurface.Generation
import ApiSurface.Proofs.Outcomes

/-!
# Runs that fail

A run is either at fault with what it reads — descriptors, guides, types and signatures, the order
of classes — or with what it writes. All that is read is read before the first file is written, so a
run of the first kind leaves the files as they were, whichever language the fault is in.
-/

namespace ApiSurface

/-- Whether a run failed by what it read. The other failures are those of files that could not be
written. -/
def Failure.isOfInput : Failure → Bool
  | .page .. | .declarations .. => false
  | .load _ | .parse _ | .order _ | .guide _ | .settings _ => true

namespace Generation

open FileTree (andThen_eq_error mapError_eq_error)

variable {s : Settings} {r : Renderer} {files after : FileTree} {es : List Entity}
  {input out target : String} {e : Failure}

/-! ## Writing -/

/-- A file that is not written has the failure of its kind. -/
theorem writePage_error {failure : String → FileFault → Failure} {p : Page}
    (h : writePage failure files p = (after, .error e)) : ∃ path fault, e = failure path fault := by
  rw [writePage, andThen_eq_error] at h
  obtain hmake | ⟨made, _, -, hwrite⟩ := h
  · obtain ⟨fault, -, rfl⟩ := mapError_eq_error.mp hmake
    exact ⟨_, fault, rfl⟩
  · obtain ⟨fault, -, rfl⟩ := mapError_eq_error.mp hwrite
    exact ⟨_, fault, rfl⟩

theorem writePages_error {ps : List Page} (h : writePages files ps = (after, .error e)) :
    ∃ path fault, e = .page path fault := by
  induction ps generalizing files with
  | nil => simp [writePages] at h
  | cons p rest ih =>
    rw [writePages, andThen_eq_error] at h
    obtain hfirst | ⟨_, _, -, hrest⟩ := h
    · exact writePage_error hfirst
    · exact ih hrest

theorem writeLanguages_error {inputs : List PreparedDocs}
    (h : writeLanguages r out files inputs = (after, .error e)) :
    ∃ path fault, e = .page path fault := by
  induction inputs generalizing files with
  | nil => simp [writeLanguages] at h
  | cons input rest ih =>
    rw [writeLanguages, andThen_eq_error] at h
    obtain hpages | ⟨_, _, -, hrest⟩ := h
    · exact writePages_error hpages
    · obtain hrest | ⟨_, _, -, hresult⟩ := andThen_eq_error.mp hrest
      · exact ih hrest
      · cases hresult

/-! ## Runs -/

/-- A run fails before anything is written, by a language that cannot be prepared, or in writing. -/
theorem renderDocs_error (h : renderDocs s r files es out = (after, .error e)) :
    (s.languages.mapM (prepare s files es) = .error e ∧ after = files) ∨
      ∃ path fault, e = .page path fault := by
  obtain hprepare | ⟨_, _, -, hwrite⟩ := andThen_eq_error.mp h
  · obtain ⟨hfiles, hfault⟩ := Prod.ext_iff.mp hprepare
    exact .inl ⟨hfault, hfiles.symm⟩
  · exact .inr (writeLanguages_error hwrite)

theorem renderDocs_unchanged (he : e.isOfInput = true)
    (h : renderDocs s r files es out = (after, .error e)) : after = files := by
  obtain ⟨-, hafter⟩ | ⟨path, fault, rfl⟩ := renderDocs_error h
  · exact hafter
  · cases he

theorem loadAndRenderDocs_unchanged (he : e.isOfInput = true)
    (h : loadAndRenderDocs s r files input out = (after, .error e)) : after = files := by
  obtain hload | ⟨_, _, hload, hrender⟩ := andThen_eq_error.mp h
  · exact (Prod.ext_iff.mp hload).1.symm
  · obtain rfl := (Prod.ext_iff.mp hload).1
    exact renderDocs_unchanged he hrender

theorem loadAndWriteDeclarations_unchanged (he : e.isOfInput = true)
    (h : loadAndWriteDeclarations s files input target = (after, .error e)) : after = files := by
  obtain hload | ⟨_, _, -, hwrite⟩ := andThen_eq_error.mp h
  · exact (Prod.ext_iff.mp hload).1.symm
  · obtain ⟨path, fault, rfl⟩ := writePage_error hwrite
    cases he

/-- **A run that fails by what it reads writes nothing**: documentation of loaded descriptors,
documentation with the load, and declarations. -/
theorem failed_run_unchanged (he : e.isOfInput = true) :
    (∀ s r files es out after,
      renderDocs s r files es out = (after, .error e) → after = files) ∧
    (∀ s r files input out after,
      loadAndRenderDocs s r files input out = (after, .error e) → after = files) ∧
    (∀ s files input target after,
      loadAndWriteDeclarations s files input target = (after, .error e) → after = files) :=
  ⟨fun _ _ _ _ _ _ => renderDocs_unchanged he, fun _ _ _ _ _ _ => loadAndRenderDocs_unchanged he,
    fun _ _ _ _ _ => loadAndWriteDeclarations_unchanged he⟩

/-- A signature that is malformed for JavaScript alone keeps the documentation of C++, which comes
first, and the declarations from being written. -/
theorem failed_run_unchanged_broken :
    let s : Settings := { languages := [.cpp, .js] }
    let broken : Member := { signature := some "void F(int", languages := some { js := true } }
    let es : List Entity :=
      [⟨"g", { name := "G", kind := "class", members := { methods := [broken] } }⟩]
    let files : FileTree := { entries := [(["d"], .directory), (["d", "g.json"], .file
      ("\x7b\"name\": \"G\", \"type\": \"class\", \"methods\": " ++
        "[\x7b\"signature\": \"void F(int\", \"lang\": [\"js\"]\x7d]\x7d"))] }
    ∃ e, e.isOfInput = true ∧ (prepare s files es .cpp).isOk ∧
      renderDocs s (.markdown none) files es "out" = (files, .error e) ∧
      loadAndRenderDocs s (.markdown none) files "d/g.json" "out" = (files, .error e) ∧
      loadAndWriteDeclarations s files "d/g.json" "gui.d.ts" = (files, .error e) := by
  intro s broken es files
  let e : Failure := .parse (.unbalanced "void F(int" 10)
  have he : e.isOfInput = true := rfl
  have hcpp : (prepare s files es .cpp).isOk = true := by decide +kernel
  have hrender : (renderDocs s (.markdown none) files es "out").2 = .error e := by decide +kernel
  have hload : (loadAndRenderDocs s (.markdown none) files "d/g.json" "out").2 = .error e := by
    decide +kernel
  have hdeclare : (loadAndWriteDeclarations s files "d/g.json" "gui.d.ts").2 = .error e := by
    decide +kernel
  obtain ⟨hr, hl, hd⟩ := failed_run_unchanged he
  refine ⟨e, he, hcpp, Prod.ext (hr _ _ _ _ _ _ (Prod.ext rfl hrender)) hrender,
    Prod.ext (hl _ _ _ _ _ _ (Prod.ext rfl hload)) hload,
    Prod.ext (hd _ _ _ _ _ (Prod.ext rfl hdeclare)) hdeclare⟩

end Generation

end ApiSurface
