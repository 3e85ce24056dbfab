import ReadGuard.Proofs.Ty.Rule

namespace ReadGuard.Ty

def parts : Ty → List Ty
  | .pointer elem | .slice elem | .array _ elem | .chan elem => [elem]
  | .map key elem => [key, elem]
  | .struct fields => fields.map (·.type)
  | .func params results => params ++ results
  | .basic _ | .named _ _ | .interface => []

inductive NodeAt : Ty → Nat → Ty → Prop
  | root (t : Ty) : NodeAt t 0 t
  | part {t v u : Ty} {n : Nat} (hv : v ∈ t.parts) (hu : NodeAt v n u) : NodeAt t (n + 1) u

def Everywhere (P : Ty → Prop) (t : Ty) : Prop := ∀ n u, NodeAt t n u → P u

theorem everywhere_iff {P : Ty → Prop} {t : Ty} :
    t.Everywhere P ↔ P t ∧ ∀ v ∈ t.parts, v.Everywhere P := by
  constructor
  · intro h
    exact ⟨h 0 t (.root t), fun v hv n u hu => h (n + 1) u (.part hv hu)⟩
  · rintro ⟨ht, hparts⟩ n u hu
    cases hu with
    | root => exact ht
    | part hv hu => exact hparts _ hv _ _ hu

open Ty.Rule Ty.Grammar

/-- What the grammar makes of a word, as a single type. -/
inductive IsAtom : Ty → Prop
  | name {w : List Char} (hw : IsWord isNameStart isNameChar w) : IsAtom (ofName (String.ofList w))
  | untyped {w : List Char} (hw : IsWord isNameStart isIdentChar w) :
      IsAtom (.basic ("untyped " ++ String.ofList w))

def FieldNamed (f : Field Ty) : Prop :=
  if f.embedded then f.name = f.type.stripPointers.name
  else IsWord isNameStart isIdentChar f.name.toList

/-- What the grammar guarantees of a type, apart from the types inside it. -/
def Proper : Ty → Prop
  | .basic name => IsAtom (.basic name)
  | .named path name => IsAtom (.named path name)
  | .array length _ => (Nat.toDigits 10 length).length ≤ maxLengthDigits
  | .struct fields => ∀ f ∈ fields, FieldNamed f
  | _ => True

theorem ofName_cases (text : String) :
    ofName text = .basic text ∨ ∃ path name, ofName text = .named path name := by
  unfold ofName
  by_cases h : basicNames.contains text = true
  · exact .inl (if_pos h)
  · rw [if_neg h]
    right
    split
    · exact ⟨_, _, rfl⟩
    · exact ⟨_, _, rfl⟩

theorem IsAtom.everywhere {t : Ty} (h : IsAtom t) : t.Everywhere Proper := by
  have hproper : Proper t ∧ t.parts = [] := by
    cases h with
    | @name w hw =>
      have ha := IsAtom.name hw
      obtain he | ⟨path, name, he⟩ := ofName_cases (String.ofList w) <;>
        · rw [he] at ha ⊢
          exact ⟨ha, rfl⟩
    | untyped hw => exact ⟨.untyped hw, rfl⟩
  rw [everywhere_iff, hproper.2]
  exact ⟨hproper.1, by simp⟩

namespace Grammar

theorem foldl_digits_lt (ds : List Char) (hds : ∀ d ∈ ds, d.isDigit = true) (n : Nat) :
    ds.foldl (fun n d => 10 * n + (d.toNat - 48)) n < (n + 1) * Nat.pow 10 ds.length := by
  induction ds generalizing n with
  | nil => simp
  | cons d ds ih =>
    have hd : d.toNat ≤ 57 := by
      have hdigit := hds d List.mem_cons_self
      simp only [Char.isDigit, Bool.and_eq_true, decide_eq_true_eq] at hdigit
      exact hdigit.2
    have hstep := ih (fun e he => hds e (List.mem_cons_of_mem _ he)) (10 * n + (d.toNat - 48))
    have hle : 10 * n + (d.toNat - 48) + 1 ≤ (n + 1) * 10 := by omega
    calc (d :: ds).foldl (fun n d => 10 * n + (d.toNat - 48)) n
        < (10 * n + (d.toNat - 48) + 1) * Nat.pow 10 ds.length := hstep
      _ ≤ (n + 1) * 10 * Nat.pow 10 ds.length := Nat.mul_le_mul_right _ hle
      _ = (n + 1) * (Nat.pow 10 ds.length * 10) := by rw [Nat.mul_assoc, Nat.mul_comm 10]

theorem length_toDigits_foldl {ds : List Char} (hds : IsWord Char.isDigit Char.isDigit ds) :
    (Nat.toDigits 10 (ds.foldl (fun n d => 10 * n + (d.toNat - 48)) 0)).length ≤ ds.length := by
  obtain ⟨c, ds, rfl, hc, hds⟩ := hds
  have hlt := foldl_digits_lt (c :: ds) (List.forall_mem_cons.mpr ⟨hc, hds⟩) 0
  rw [Nat.zero_add, Nat.one_mul] at hlt
  exact (Nat.length_toDigits_le_iff (by decide) (Nat.succ_pos _)).mpr hlt

theorem length_yields :
    Yields length fun n => (Nat.toDigits 10 n).length ≤ maxLengthDigits := by
  refine (Yields.word Char.isDigit Char.isDigit).andThen fun ds hds cs n rest he => ?_
  have hle := length_toDigits_foldl hds
  by_cases hl : maxLengthDigits < ds.length
  · simp [hl] at he
  · rw [if_neg hl] at he
    cases he
    omega

theorem ident_yields : Yields ident fun name => IsWord isNameStart isIdentChar name.toList := by
  refine (Yields.word _ _).andThen fun w hw => .yield ?_
  rwa [String.toList_ofList]

theorem named_yields : Yields named (Everywhere Proper) :=
  (Yields.word _ _).andThen fun _ hw => .yield (IsAtom.name hw).everywhere

theorem untyped_yields : Yields untyped (Everywhere Proper) := by
  refine (Yields.any _).andThen fun _ _ => (Yields.any _).andThen fun _ _ =>
    ident_yields.andThen fun name hw => .yield ?_
  have ha := IsAtom.untyped hw
  rw [String.ofList_toList] at ha
  exact ha.everywhere

theorem interface_yields : Yields interface (Everywhere Proper) := by
  refine (Yields.any _).andThen fun _ _ => (Yields.any _).andThen fun _ _ => ?_
  intro cs t rest he
  obtain ⟨_, -, hr⟩ := Option.map_eq_some_iff.mp he
  cases hr
  exact everywhere_iff.mpr ⟨trivial, by simp [parts]⟩

section

variable {type : Rule Ty} (h : Yields type (Everywhere Proper))

include h

theorem pointer_yields : Yields (pointer type) (Everywhere Proper) :=
  (Yields.any _).andThen fun _ _ => h.andThen fun _ he =>
    .yield (everywhere_iff.mpr ⟨trivial, by simpa [parts] using he⟩)

theorem slice_yields : Yields (slice type) (Everywhere Proper) :=
  (Yields.any _).andThen fun _ _ => (Yields.any _).andThen fun _ _ => h.andThen fun _ he =>
    .yield (everywhere_iff.mpr ⟨trivial, by simpa [parts] using he⟩)

theorem array_yields : Yields (array type) (Everywhere Proper) :=
  (Yields.any _).andThen fun _ _ => length_yields.padded.andThen fun _ hn =>
    (Yields.any _).andThen fun _ _ => h.andThen fun _ he =>
      .yield (everywhere_iff.mpr ⟨hn, by simpa [parts] using he⟩)

theorem map_yields : Yields (map type) (Everywhere Proper) :=
  (Yields.any _).andThen fun _ _ => (Yields.any _).andThen fun _ _ =>
    h.padded.andThen fun _ hk => (Yields.any _).andThen fun _ _ => h.andThen fun _ he =>
      .yield (everywhere_iff.mpr ⟨trivial, by simpa [parts] using ⟨hk, he⟩⟩)

theorem chan_yields : Yields (chan type) (Everywhere Proper) :=
  (Yields.any _).andThen fun _ _ => (Yields.any _).andThen fun _ _ => h.andThen fun _ he =>
    .yield (everywhere_iff.mpr ⟨trivial, by simpa [parts] using he⟩)

theorem field_yields : Yields (field type) fun f => FieldNamed f ∧ f.type.Everywhere Proper := by
  apply Yields.orElse
  · exact ident_yields.andThen fun _ hname => (Yields.any _).andThen fun _ _ =>
      h.andThen fun _ ht => .yield ⟨by simpa [FieldNamed] using hname, ht⟩
  · exact h.padded.andThen fun _ ht => .yield ⟨by simp [FieldNamed], ht⟩

theorem struct_yields : Yields (struct type) (Everywhere Proper) := by
  have hfields : Yields (fields type) fun fs => ∀ f ∈ fs, FieldNamed f ∧ f.type.Everywhere Proper :=
    ((field_yields h).separated ";").andThen fun _ hfs => (Yields.any _).andThen fun _ _ =>
      .yield hfs
  refine (Yields.any _).andThen fun _ _ => (Yields.any _).andThen fun _ _ =>
    hfields.optionalList.padded.andThen fun fs hfs => (Yields.any _).andThen fun _ _ => .yield ?_
  rw [everywhere_iff]
  refine ⟨fun f hf => (hfs f hf).1, fun v hv => ?_⟩
  obtain ⟨f, hf, rfl⟩ := List.mem_map.mp hv
  exact (hfs f hf).2

theorem variadic_yields : Yields (variadic type) (Everywhere Proper) :=
  (Yields.any _).andThen fun _ _ => h.andThen fun _ he =>
    .yield (everywhere_iff.mpr ⟨trivial, by simpa [parts] using he⟩)

theorem param_yields : Yields (param type) (Everywhere Proper) := by
  have hnamed : Yields (namedParam type) (Everywhere Proper) :=
    (Yields.any _).andThen fun _ _ => (Yields.any _).andThen fun _ _ => (variadic_yields h).orElse h
  exact (hnamed.orElse (variadic_yields h)).orElse h

theorem tuple_yields : Yields (tuple type) fun ts => ∀ t ∈ ts, t.Everywhere Proper :=
  (Yields.any _).andThen fun _ _ =>
    ((param_yields h).separated ",").optionalList.padded.andThen fun _ hts =>
      (Yields.any _).andThen fun _ _ => .yield hts

theorem func_yields : Yields (func type) (Everywhere Proper) := by
  have hresults : Yields (results type) fun ts => ∀ t ∈ ts, t.Everywhere Proper :=
    (tuple_yields h).orElse (h.andThen fun _ ht => .yield (by simpa using ht))
  refine (Yields.any _).andThen fun _ _ => (tuple_yields h).padded.andThen fun params hparams =>
    hresults.optionalList.andThen fun rs hrs => .yield ?_
  rw [everywhere_iff]
  refine ⟨trivial, fun v hv => ?_⟩
  rcases List.mem_append.mp hv with hv | hv
  · exact hparams v hv
  · exact hrs v hv

theorem alternatives_yields : Yields (alternatives type) (Everywhere Proper) :=
  ((((((((pointer_yields h).orElse (slice_yields h)).orElse (array_yields h)).orElse
    (map_yields h)).orElse (chan_yields h)).orElse (struct_yields h)).orElse
      (func_yields h)).orElse interface_yields).orElse (untyped_yields.orElse named_yields)

end

theorem type_yields (depth : Nat) : Yields (type depth) (Everywhere Proper) := by
  induction depth with
  | zero => exact fun _ _ _ he => nomatch he
  | succ depth ih => exact alternatives_yields ih

end Grammar

theorem read_everywhere {text : String} {t : Ty} (h : Ty.read text = .ok t) :
    t.Everywhere Proper := by
  unfold Ty.read at h
  dsimp only at h
  split at h
  · cases h
  · split at h
    · rename_i he
      cases h
      exact type_yields _ _ _ _ he
    · cases h

end ReadGuard.Ty
