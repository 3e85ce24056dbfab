import ReadGuard.Proofs.CallGraph.Lookup

namespace ReadGuard.CallGraph

variable {g : CallGraph}

/-- An expression names a function of another package, by a name declared there or behind the name
of the imported package. -/
inductive LeadsOut (g : CallGraph) : Expr → (package name : String) → Prop
  | declared {id : Ident} (hvar : id.object ≠ some .var) (hbuiltin : id.object ≠ some .builtin)
      (hsome : id.package ≠ "") (hname : id.package ≠ g.unitName)
      (hpath : id.package ≠ g.unitPath) :
      LeadsOut g (.ident id) (Ty.packageName id.package) id.name
  | imported {x : Expr} {id : Ident} {field : String} {info : Info} (hx : x.unparen = .ident id)
      (hpkg : id.object = some .pkg) : LeadsOut g (.selector x field info) id.name field

theorem LeadsOut.calleeKey {c : Call} {package name : String}
    (h : g.LeadsOut c.fn.unparen package name) : g.calleeKey c = package ++ "." ++ name := by
  unfold CallGraph.calleeKey
  generalize c.fn.unparen = e at h
  cases h with
  | declared hvar hbuiltin hsome hname hpath =>
    simp only [identKey]
    rw [if_neg (not_or.mpr ⟨hvar, hbuiltin⟩), if_pos ⟨hsome, hname, hpath⟩]
  | imported hx hpkg => simp [selectorKey, hx, isPackage, hpkg]

theorem resolutionOf_dotted (g : CallGraph) (package name : String) :
    g.resolutionOf (package ++ "." ++ name) =
      if g.declares (package ++ "." ++ name) then .direct else .outer := by
  have hdot : (package ++ "." ++ name).toList.contains '.' = true := by simp
  rw [resolutionOf, if_pos hdot]

def Registered (g : CallGraph) : Prop :=
  ∀ f ∈ g.functions, f.key = g.functionKey f.decl

theorem registered_empty (name path : String) : (empty name path).Registered := by
  intro f hf
  cases hf

theorem Registered.register (h : g.Registered) (decl : FuncDecl) :
    (g.register decl).Registered := by
  simp only [CallGraph.register]
  split
  case isTrue => exact h
  case isFalse =>
    intro f hf
    rcases List.mem_append.mp hf with hf | hf
    · exact h f hf
    · rw [List.mem_singleton.mp hf]
      rfl

/-- Every key starts with the name of the unit. -/
theorem exists_functionKey (g : CallGraph) (d : FuncDecl) :
    ∃ rest, g.functionKey d = g.unitName ++ "." ++ rest := by
  unfold functionKey methodKey?
  split
  · rename_i type _
    exact ⟨type ++ "." ++ d.name, by simp [String.append_assoc]⟩
  · exact ⟨d.name, rfl⟩

theorem Registered.exists_of_declares (h : g.Registered) {key : String}
    (hd : g.declares key = true) : ∃ rest, key = g.unitName ++ "." ++ rest := by
  obtain ⟨f, hf⟩ := Option.isSome_iff_exists.mp hd
  obtain ⟨rest, hrest⟩ := g.exists_functionKey f.decl
  exact ⟨rest, by rw [← get?_key hf, h f (get?_mem hf), hrest]⟩

/-- The name of the unit and that of a package with a function of the same key start alike. -/
theorem Registered.dotted_of_declares (h : g.Registered) {package name : String}
    (hd : g.declares (package ++ "." ++ name) = true) :
    (g.unitName ++ ".").toList <+: (package ++ ".").toList ∨
      (package ++ ".").toList <+: (g.unitName ++ ".").toList := by
  obtain ⟨rest, hkey⟩ := h.exists_of_declares hd
  have hunit : (g.unitName ++ ".").toList <+: (package ++ "." ++ name).toList :=
    ⟨rest.toList, by rw [← String.toList_append, hkey]⟩
  have hpackage : (package ++ ".").toList <+: (package ++ "." ++ name).toList :=
    ⟨name.toList, by rw [← String.toList_append]⟩
  exact List.prefix_or_prefix_of_prefix hunit hpackage

theorem eq_of_dotted {a b : String} (hb : '.' ∉ b.toList)
    (h : (a ++ ".").toList <+: (b ++ ".").toList) : a = b := by
  rw [String.toList_append, String.toList_append] at h
  change a.toList ++ ['.'] <+: b.toList ++ ['.'] at h
  rw [List.prefix_concat_iff] at h
  rcases h with he | hp
  · exact String.toList_inj.mp (List.append_cancel_right he)
  · exact absurd (hp.subset (by simp)) hb

/-- A call into another package goes by the name of that package, not by its path. So it resolves to
a function of the unit if one has the same key, which takes a package with the name of the unit or,
where names have dots, one of which the name extends the other. -/
theorem outside_call_resolution (g : CallGraph) (hr : g.Registered) (c : Call)
    (package name : String) (h : g.LeadsOut c.fn.unparen package name) :
    g.resolutionOf (g.calleeKey c) =
        (if g.declares (package ++ "." ++ name) then .direct else .outer) ∧
      (g.resolutionOf (g.calleeKey c) = .direct →
        (g.unitName ++ ".").toList <+: (package ++ ".").toList ∨
          (package ++ ".").toList <+: (g.unitName ++ ".").toList) ∧
      ('.' ∉ g.unitName.toList → '.' ∉ package.toList →
        (g.resolutionOf (g.calleeKey c) = .direct ↔
          package = g.unitName ∧ g.declares (g.unitName ++ "." ++ name) = true)) := by
  rw [h.calleeKey]
  have hres := g.resolutionOf_dotted package name
  have hdirect : g.resolutionOf (package ++ "." ++ name) = .direct ↔
      g.declares (package ++ "." ++ name) = true := by
    rw [hres]
    by_cases hd : g.declares (package ++ "." ++ name) = true <;> simp [hd]
  refine ⟨hres, fun hd => hr.dotted_of_declares (hdirect.mp hd), fun hunit hpackage => ?_⟩
  rw [hdirect]
  constructor
  · intro hd
    have he : package = g.unitName := by
      rcases hr.dotted_of_declares hd with hp | hp
      · exact (eq_of_dotted hpackage hp).symm
      · exact eq_of_dotted hunit hp
    exact ⟨he, he ▸ hd⟩
  · rintro ⟨rfl, hd⟩
    exact hd

def helperDecl : FuncDecl where
  name := "helper"
  body := some (.mk [] {})

def readerGraph : CallGraph := (empty "reader" "").register helperDecl

def libraryCall : Call where
  fn := .ident { name := "helper", object := some .func, package := "lib/reader" }
  args := []
  info := {}

theorem readerGraph_leadsOut : readerGraph.LeadsOut libraryCall.fn.unparen "reader" "helper" := by
  have hpackage : Ty.packageName "lib/reader" = "reader" := by decide
  rw [← hpackage]
  exact .declared (by decide) (by decide) (by decide) (by decide) (by decide)

theorem outside_call_resolution_reader :
    readerGraph.Registered ∧ readerGraph.LeadsOut libraryCall.fn.unparen "reader" "helper" ∧
      readerGraph.resolutionOf (readerGraph.calleeKey libraryCall) =
        (if readerGraph.declares "reader.helper" then .direct else .outer) ∧
      ('.' ∉ "reader".toList →
        (readerGraph.resolutionOf (readerGraph.calleeKey libraryCall) = .direct ↔
          readerGraph.declares "reader.helper" = true)) := by
  have hr : readerGraph.Registered := (registered_empty "reader" "").register helperDecl
  obtain ⟨hres, -, hdirect⟩ :=
    outside_call_resolution readerGraph hr libraryCall "reader" "helper" readerGraph_leadsOut
  refine ⟨hr, readerGraph_leadsOut, hres, fun hdot => ?_⟩
  rw [hdirect hdot hdot]
  exact and_iff_right rfl

def importedCall : Call where
  fn := .selector (.ident { name := "reader", object := some .pkg }) "helper" {}
  args := []
  info := {}

/-- Calls of the library's `helper`, by its own name and behind the name of its package, are taken
for calls of the unit's `helper`. -/
theorem outside_calls_resolve_inside :
    (readerGraph.LeadsOut libraryCall.fn.unparen "reader" "helper" ∧
      readerGraph.resolutionOf (readerGraph.calleeKey libraryCall) = .direct) ∧
    (readerGraph.LeadsOut importedCall.fn.unparen "reader" "helper" ∧
      readerGraph.resolutionOf (readerGraph.calleeKey importedCall) = .direct) := by
  let id : Ident := { name := "reader", object := some .pkg }
  have himported := @LeadsOut.imported readerGraph (.ident id) id "helper" {} rfl rfl
  exact ⟨⟨readerGraph_leadsOut, by decide +kernel⟩, himported, by decide +kernel⟩

end ReadGuard.CallGraph
