import ReadGuard.Proofs.Ty.Writes

namespace ReadGuard.Ty

open Ty.Rule Ty.Grammar

/-- No part of a type stands where its first word would be taken for a name. -/
def Clear : Ty → Prop
  | .struct fields => ∀ f ∈ fields, f.embedded = true → f.type.startsWithWord = false
  | .func params results =>
    (∀ u ∈ params, u.startsWithWord = false) ∧
      (2 ≤ results.length → ∀ u ∈ results, u.startsWithWord = false)
  | _ => True

instance : DecidablePred Clear
  | .struct fields => inferInstanceAs
      (Decidable (∀ f ∈ fields, f.embedded = true → f.type.startsWithWord = false))
  | .func params results => inferInstanceAs (Decidable
      ((∀ u ∈ params, u.startsWithWord = false) ∧
        (2 ≤ results.length → ∀ u ∈ results, u.startsWithWord = false)))
  | .basic _ | .named _ _ | .pointer _ | .slice _ | .array _ _ | .map _ _ | .chan _ | .interface =>
    isTrue trivial

/-- A type that the grammar can give and that a text of the given depth shows in full. -/
structure Fits (d : Nat) (t : Ty) : Prop where
  depth : ∀ n u, NodeAt t n u → n < d
  proper : t.Everywhere Proper
  clear : t.Everywhere Clear

theorem Fits.part {d : Nat} {t u : Ty} (h : Fits (d + 1) t) (hu : u ∈ t.parts) : Fits d u where
  depth n v hv := Nat.lt_of_succ_lt_succ (h.depth (n + 1) v (.part hu hv))
  proper := (everywhere_iff.mp h.proper).2 u hu
  clear := (everywhere_iff.mp h.clear).2 u hu

section Names

theorem toList_of_cutLast {mark : Char} {s path name : String}
    (h : Text.cutLast? mark s = some (path, name)) :
    s.toList = path.toList ++ mark :: name.toList := by
  unfold Text.cutLast? at h
  dsimp only at h
  split at h
  · cases h
  · rename_i c before hdrop
    cases h
    have hc : c = mark := by
      have hhead := List.head?_dropWhile_not (fun c => decide (c ≠ mark)) s.toList.reverse
      rw [hdrop] at hhead
      simpa using hhead
    have hsplit : s.toList.reverse.takeWhile (fun c => decide (c ≠ mark)) ++ c :: before =
        s.toList.reverse := by
      rw [← hdrop]
      exact List.takeWhile_append_dropWhile
    rw [hc] at hsplit
    have hlist := congrArg List.reverse hsplit
    simpa using hlist.symm

theorem textTo_ofName {w : List Char} (hw : IsWord isNameStart isNameChar w) (d : Nat) :
    (ofName (String.ofList w)).textTo (d + 1) = String.ofList w := by
  unfold ofName
  by_cases hb : basicNames.contains (String.ofList w) = true
  · rw [if_pos hb]
    rfl
  · rw [if_neg hb]
    split
    · rename_i path name hcut
      have hlist := toList_of_cutLast hcut
      -- a name does not start with a dot, so there is something before the last one
      have hpath : ¬ path.isEmpty = true := by
        intro he
        obtain ⟨c, ds, rfl, hc, -⟩ := hw
        rw [String.isEmpty_iff.mp he, String.toList_ofList] at hlist
        cases hlist
        cases hc
      rw [textTo, TypeText.named, if_neg hpath, ← String.toList_inj, hlist]
      simp [String.toList_append]
    · rfl

end Names

section Length

theorem length_le_field (f : Field String) :
    f.type.toList.length ≤ (TypeText.field f).toList.length := by
  unfold TypeText.field
  split
  · exact Nat.le_refl _
  · rw [String.toList_append, List.length_append]
    omega

theorem length_le_results (text : Ty → String) {u : Ty} {ts : List Ty} (hu : u ∈ ts) :
    (text u).toList.length ≤ (Writes.resultsText text ts).length := by
  have hle := length_le_joined "," (fun t => (text t).toList) hu
  match ts with
  | [] => cases hu
  | [t] =>
    cases List.mem_singleton.mp hu
    simp [Writes.resultsText]
  | t :: v :: ts =>
    simp only [Writes.resultsText, List.length_cons, List.length_append]
    omega

theorem length_part_lt {t u : Ty} (hu : u ∈ t.parts) (d : Nat) :
    (u.textTo d).toList.length < (t.textTo (d + 1)).toList.length := by
  cases t with
  | basic | named | interface => cases hu
  | pointer elem | slice elem | chan elem =>
    cases List.mem_singleton.mp hu
    rw [textTo, String.toList_append, List.length_append]
    exact Nat.lt_add_of_pos_left (by decide)
  | array n elem =>
    cases List.mem_singleton.mp hu
    rw [textTo, TypeText.array, String.toList_append, List.length_append]
    exact Nat.lt_add_of_pos_left (by simp [String.toList_append])
  | map key elem =>
    simp only [textTo, TypeText.map, String.toList_append, List.length_append]
    have hopen : "map[".toList.length = 4 := rfl
    obtain rfl | rfl : u = key ∨ u = elem := by simpa [parts] using hu
    · omega
    · omega
  | struct fields =>
    obtain ⟨f, hf, rfl⟩ := List.mem_map.mp hu
    have hfield := length_le_field ⟨f.name, f.type.textTo d, f.embedded⟩
    have hjoined := length_le_joined ";"
      (fun f : Field Ty => (TypeText.field ⟨f.name, f.type.textTo d, f.embedded⟩).toList) hf
    rw [textTo, Writes.toList_struct (textTo d)]
    simp only [List.length_append, List.length_cons] at hfield hjoined ⊢
    omega
  | func params results =>
    rw [textTo, Writes.toList_func (textTo d)]
    simp only [List.length_append, List.length_cons]
    obtain hp | hr := List.mem_append.mp hu
    · have hle := length_le_joined "," (fun t => (textTo d t).toList) hp
      omega
    · have hle := length_le_results (textTo d) hr
      omega

end Length

theorem type_of_stops (e : Nat) {cs : List Char} (h : Stops cs) : Grammar.type e cs = none := by
  cases e with
  | zero => rfl
  | succ e => exact choose_none h

theorem IsAtom.writes {type : Rule Ty} {t : Ty} (h : IsAtom t) (d : Nat) :
    Writes (alternatives type) (t.textTo (d + 1)) t := by
  cases h with
  | name hw =>
    rw [textTo_ofName hw]
    exact .name hw
  | untyped hw => exact .untyped hw

theorem writes_textTo {d e : Nat} {t : Ty} (h : Fits d t) (he : (t.textTo d).toList.length < e) :
    Writes (Grammar.type e) (t.textTo d) t := by
  -- on the levels of the text; the parts have shorter texts, so the grammar has levels left for them
  induction d generalizing t e with
  | zero => exact absurd (h.depth 0 t (.root t)) (Nat.not_lt_zero 0)
  | succ d ih =>
    cases e with
    | zero => cases he
    | succ e =>
      have hpart : ∀ u ∈ t.parts, Writes (Grammar.type e) (u.textTo d) u := by
        intro u hu
        have hlt := length_part_lt hu d
        exact ih (h.part hu) (by omega)
      have htype : ∀ cs, Stops cs → Grammar.type e cs = none := fun _ => type_of_stops e
      have hproper := (everywhere_iff.mp h.proper).1
      have hclear := (everywhere_iff.mp h.clear).1
      cases t with
      | basic name => exact IsAtom.writes hproper d
      | named path name => exact IsAtom.writes hproper d
      | pointer elem => exact (hpart elem List.mem_cons_self).pointer
      | slice elem => exact (hpart elem List.mem_cons_self).slice
      | array n elem => exact (hpart elem List.mem_cons_self).array hproper
      | map key elem =>
        exact (hpart key List.mem_cons_self).map
          (hpart elem (List.mem_cons_of_mem _ List.mem_cons_self))
      | chan elem => exact (hpart elem List.mem_cons_self).chan
      | struct fields =>
        exact .struct htype hproper (fun f hf => hpart f.type (List.mem_map_of_mem hf)) hclear
      | func params results =>
        exact .func htype (fun u hu => hpart u (List.mem_append_left _ hu)) hclear.1
          (fun u hu => hpart u (List.mem_append_right _ hu)) hclear.2
      | interface => exact .interface

theorem trim_of_ends {p : Char → Bool} {c d : Char} {cs ds : List Char} (h : c :: cs = ds ++ [d])
    (hc : p c = false) (hd : p d = false) : Text.trim p (c :: cs) = c :: cs := by
  rw [Text.trim, List.dropWhile_cons, if_neg (by simp [hc]), h, List.reverse_append,
    List.reverse_singleton, List.singleton_append, List.dropWhile_cons, if_neg (by simp [hd])]
  simp

theorem Writes.read {s : String} {t : Ty} (h : Writes (Grammar.type (s.toList.length + 1)) s t) :
    Ty.read s = .ok t := by
  obtain ⟨c, cs, hs, hc⟩ := h.opens
  obtain ⟨ds, d, hs', hd⟩ := h.closes
  have htrim : Text.trim Text.isMargin s.toList = s.toList := by
    simp only [isOpening, Bool.and_eq_true, Bool.not_eq_true'] at hc
    rw [hs]
    exact trim_of_ends (hs.symm.trans hs') hc.1.1 hd
  have hread := h.reads [] (by simp [Stops])
  rw [List.append_nil] at hread
  have hne : s.toList.isEmpty = false := by simp [hs]
  simp only [Ty.read, htrim, hne, hread]
  rfl

def holdsTo (P : Ty → Bool) : Nat → Ty → Bool
  | 0, _ => false
  | d + 1, t => P t && t.parts.all (holdsTo P d)

theorem NodeAt.of_holdsTo {P : Ty → Bool} {t u : Ty} {n d : Nat} (hu : NodeAt t n u)
    (h : t.holdsTo P d = true) : n < d ∧ P u = true := by
  induction hu generalizing d with
  | root t =>
    cases d with
    | zero => cases h
    | succ d =>
      rw [holdsTo, Bool.and_eq_true] at h
      exact ⟨Nat.succ_pos d, h.1⟩
  | part hv _ ih =>
    cases d with
    | zero => cases h
    | succ d =>
      rw [holdsTo, Bool.and_eq_true, List.all_eq_true] at h
      obtain ⟨hn, hp⟩ := ih (h.2 _ hv)
      exact ⟨Nat.succ_lt_succ hn, hp⟩

/-- A type that is not cut short is read back from its text, unless one of its channels or untyped
types stands where a name may come first. -/
theorem read_text {s : String} {t : Ty} (hread : Ty.read s = .ok t)
    (hdepth : ∀ n u, NodeAt t n u → n ≤ 20) (hclear : t.Everywhere Clear) :
    Ty.read t.text = .ok t := by
  have hfits : Fits TypeText.depth t :=
    ⟨fun n u hu => Nat.lt_succ_of_le (hdepth n u hu), read_everywhere hread, hclear⟩
  exact (writes_textTo hfits (Nat.lt_succ_self _)).read

theorem read_text_struct :
    ∃ t, Ty.read "struct\x7b io.Reader; send chan func(buf ...byte) (n int, err error); \x7d" =
        .ok t ∧
      (∀ n u, NodeAt t n u → n ≤ 20) ∧ t.Everywhere Clear ∧
      t.text = "struct\x7bio.Reader; send chan func([]byte) (int, error)\x7d" ∧
      Ty.read t.text = .ok t := by
  have h : (Ty.read "struct\x7b io.Reader; send chan func(buf ...byte) (n int, err error); \x7d"
      ).toOption.map (fun t => (t.holdsTo (fun u => decide u.Clear) 21, t.text)) =
        some (true, "struct\x7bio.Reader; send chan func([]byte) (int, error)\x7d") := by
    decide +kernel
  cases hread :
      Ty.read "struct\x7b io.Reader; send chan func(buf ...byte) (n int, err error); \x7d" with
  | error e =>
    rw [hread] at h
    cases h
  | ok t =>
    rw [hread] at h
    obtain ⟨hholds, htext⟩ := Prod.mk.inj (Option.some.inj h)
    have hdepth : ∀ n u, NodeAt t n u → n ≤ 20 :=
      fun n u hu => Nat.le_of_lt_succ (hu.of_holdsTo hholds).1
    have hclear : t.Everywhere Clear := fun n u hu => of_decide_eq_true (hu.of_holdsTo hholds).2
    exact ⟨t, rfl, hdepth, hclear, htext, read_text hread hdepth hclear⟩

-- a channel as a parameter comes back as a parameter with the name `chan`
example : (Ty.read (text (.func [.chan (.basic "int")] []))).toOption.map text =
    some "func(int)" := by
  decide +kernel

end ReadGuard.Ty
