import ReadGuard.Proofs.Alias.Order
import ReadGuard.Proofs.Check.Effect

namespace ReadGuard

def Issue.Alike (i i' : Issue) : Prop := i'.pos = i.pos ∧ i'.rule = i.rule

variable {s s' : Aliases}

namespace Aliases

theorem root_below (h : s.Below s') {x : Expr} {c : String × Expr} (hr : s.root x = some c) :
    ∃ c', s'.root x = some c' := by
  fun_induction Aliases.root s x with
  | case1 x _ ih => simpa [root] using ih hr
  | case2 x _ ih => simpa [root] using ih hr
  | case3 x _ _ ih => simpa [root] using ih hr
  | case4 id =>
    obtain ⟨field, hf, -⟩ := Option.map_eq_some_iff.mp hr
    obtain ⟨field', hf'⟩ := h.resolve hf
    exact ⟨(id.name, field'), by simp [root, hf']⟩
  | case5 => cases hr

theorem ofExpr_below (h : s.Below s') {e : Expr} {c : String × Expr} (hr : s.ofExpr e = some c) :
    ∃ c', s'.ofExpr e = some c' := by
  unfold ofExpr at hr ⊢
  cases he : e.unparen with
  | ident id =>
    rw [he] at hr
    obtain ⟨field, hf, -⟩ := Option.map_eq_some_iff.mp hr
    obtain ⟨field', hf'⟩ := h.resolve hf
    exact ⟨(id.name, field'), by simp [hf']⟩
  | _ => simp [he] at hr

end Aliases

namespace WriteTarget

theorem ofAlias_below {kind : TargetKind} {target : Expr} {found found' : Option (String × Expr)}
    (hle : ∀ c, found = some c → ∃ c', found' = some c') {t : WriteTarget}
    (ht : ofAlias kind target found = some t) :
    ∃ t', ofAlias kind target found' = some t' ∧ t'.kind = t.kind := by
  obtain ⟨c, hc, rfl⟩ := Option.map_eq_some_iff.mp ht
  obtain ⟨c', hc'⟩ := hle c hc
  exact ⟨⟨kind, target, c'.2, c'.1⟩, by rw [ofAlias, hc']; rfl, rfl⟩

/-- What kind of write an expression is does not change with more names. -/
theorem classify_below (h : s.Below s') {p : Protection} {e : Expr} {t : WriteTarget}
    (ht : classify p s e = some t) : ∃ t', classify p s' e = some t' ∧ t'.kind = t.kind := by
  unfold classify at ht ⊢
  cases he : e.unparen with
  | index x i info =>
    rw [he] at ht
    dsimp only [ofIndex] at ht ⊢
    cases hf : p.fieldRoot x with
    | some field => exact ⟨t, by rwa [hf] at ht, rfl⟩
    | none =>
      rw [hf] at ht
      exact ofAlias_below (fun _ => Aliases.root_below h) ht
  | star x info =>
    rw [he] at ht
    dsimp only [ofStar] at ht ⊢
    cases hf : p.addressed x.unparen with
    | some field => exact ⟨t, by rwa [hf] at ht, rfl⟩
    | none =>
      rw [hf] at ht
      exact ofAlias_below (fun _ => Aliases.ofExpr_below h) ht
  | selector x field info =>
    rw [he] at ht
    dsimp only [ofSelector] at ht ⊢
    cases hf : p.fieldRoot (.selector x field info) with
    | some root => exact ⟨t, by rwa [hf] at ht, rfl⟩
    | none =>
      rw [hf] at ht
      exact ofAlias_below (fun _ => Aliases.root_below h) ht
  | _ => simp [he] at ht

end WriteTarget

namespace Watch

variable {w : Watch} {i : Issue}

theorem written_alike {f : WriteForm} {pos : Position} {t t' : WriteTarget}
    (h : t'.kind = t.kind) : (w.written f pos t).Alike (w.written f pos t') :=
  ⟨rfl, congrArg f.rule h⟩

theorem inAssign_below (h : s.Below s') {left : List Expr} (hi : i ∈ w.inAssign s left) :
    ∃ i' ∈ w.inAssign s' left, i.Alike i' := by
  obtain ⟨e, he, hc⟩ := List.mem_filterMap.mp hi
  obtain ⟨t, ht, rfl⟩ := Option.map_eq_some_iff.mp hc
  obtain ⟨t', ht', hk⟩ := WriteTarget.classify_below h ht
  exact ⟨w.written .assign e.pos t', List.mem_filterMap.mpr ⟨e, he, by rw [ht']; rfl⟩,
    written_alike hk⟩

theorem inIncDec_below (h : s.Below s') {x : Expr} {pos : Position}
    (hi : i ∈ w.inIncDec s x pos) : ∃ i' ∈ w.inIncDec s' x pos, i.Alike i' := by
  rw [inIncDec, Option.mem_toList] at hi
  obtain ⟨t, ht, rfl⟩ := Option.map_eq_some_iff.mp hi
  obtain ⟨t', ht', hk⟩ := WriteTarget.classify_below h ht
  exact ⟨w.written .step pos t', by rw [inIncDec, Option.mem_toList, ht']; rfl, written_alike hk⟩

theorem inRange_below (h : s.Below s') {key value : Option Expr} {op : String}
    (hi : i ∈ w.inRange s key value op) : ∃ i' ∈ w.inRange s' key value op, i.Alike i' := by
  obtain ⟨v, hv, hiv⟩ := List.mem_flatMap.mp hi
  have hloop : ∃ i' ∈ w.inLoopVariable s' op v, i.Alike i' := by
    unfold inLoopVariable at hiv ⊢
    split at hiv
    case isTrue ho =>
      rw [if_pos ho]
      exact inAssign_below h hiv
    case isFalse ho =>
      rw [if_neg ho]
      exact ⟨i, hiv, rfl, rfl⟩
  obtain ⟨i', hi', ha⟩ := hloop
  exact ⟨i', List.mem_flatMap.mpr ⟨v, hv, hi'⟩, ha⟩

theorem container_below (h : s.Below s') {x : Expr} {c : String × Expr}
    (hc : w.container s x = some c) : ∃ c', w.container s' x = some c' := by
  unfold container at hc ⊢
  cases hf : w.protection.fieldRoot x with
  | some field => exact ⟨("", field), rfl⟩
  | none =>
    rw [hf] at hc
    exact Aliases.root_below h hc

theorem inBuiltinCall_below (h : s.Below s') {c : Call} (hi : i ∈ w.inBuiltinCall s c) :
    ∃ i' ∈ w.inBuiltinCall s' c, i.Alike i' := by
  unfold inBuiltinCall at hi ⊢
  cases hw : writer? c with
  | none => simp [hw] at hi
  | some name =>
    cases ha : c.args with
    | nil => simp [hw, ha] at hi
    | cons x rest =>
      rw [hw, ha] at hi
      dsimp only at hi ⊢
      cases hc : w.container s x with
      | none => simp [hc] at hi
      | some found =>
        obtain ⟨found', hc'⟩ := container_below h hc
        rw [hc, List.mem_singleton] at hi
        rw [hc']
        exact ⟨_, List.mem_singleton_self _, by rw [hi]; exact ⟨rfl, rfl⟩⟩

end Watch

namespace Event

theorem rebound_below (h : s.Below s') (w : Watch) (event : Event) :
    (event.rebound w s).Below (event.rebound w s') := by
  cases event with
  | call c => exact h
  | assign left op right =>
    rw [rebound, rebound]
    split
    · exact Aliases.below_assignAll h _ _ _
    · exact h
  | incDec x pos => exact h
  | declare names values => exact Aliases.below_assignAll h _ _ _
  | range key value op => exact Aliases.below_assignAll h _ _ _

theorem breaches_below (h : s.Below s') {w : Watch} {event : Event} {i : Issue}
    (hi : i ∈ event.breaches w s) : ∃ i' ∈ event.breaches w s', i.Alike i' := by
  cases event with
  | call c =>
    rcases List.mem_append.mp hi with hi | hi
    · exact ⟨i, List.mem_append_left _ hi, rfl, rfl⟩
    · obtain ⟨i', hi', ha⟩ := Watch.inBuiltinCall_below h hi
      exact ⟨i', List.mem_append_right _ hi', ha⟩
  | assign left op right => exact Watch.inAssign_below h hi
  | incDec x pos => exact Watch.inIncDec_below h hi
  | declare names values => simp [breaches] at hi
  | range key value op => exact Watch.inRange_below h hi

end Event

theorem Run.escaping_below (h : s.Below s') {w : Watch} {arg source : Expr}
    (he : escaping w s arg = some source) : ∃ source', escaping w s' arg = some source' := by
  unfold escaping at he ⊢
  cases ha : arg.unparen with
  | ident id =>
    rw [ha] at he
    exact h.resolve he
  | _ => exact ⟨source, by rwa [ha] at he⟩

namespace Effect

variable {w : Watch} {keyOf : Call → String} {events : List Event}

/-- More names give more breaches, and the fields in their messages may be others. -/
theorem breach_ofEvents_below (keyOf' : Call → String) (h : s.Below s') {i : Issue}
    (he : breach i ∈ ofEvents w keyOf s events) :
    ∃ i', breach i' ∈ ofEvents w keyOf' s' events ∧ i.Alike i' := by
  induction events generalizing s s' with
  | nil => simp [ofEvents] at he
  | cons event events ih =>
    rcases List.mem_append.mp he with he | he
    · obtain ⟨i', hi', ha⟩ := Event.breaches_below h (breach_mem_ofEvent.mp he)
      exact ⟨i', List.mem_append_left _ (breach_mem_ofEvent.mpr hi'), ha⟩
    · obtain ⟨i', hi', ha⟩ := ih (Event.rebound_below h w event) he
      exact ⟨i', List.mem_append_right _ hi', ha⟩

theorem passes_ofEvents_below (keyOf' : Call → String) (h : s.Below s') {pos : Position}
    {callee : String} {index : Nat} {source : Expr}
    (he : passes pos callee index source ∈ ofEvents w keyOf s events) :
    ∃ c source', .call c ∈ events ∧ callee = keyOf c ∧
      passes pos (keyOf' c) index source' ∈ ofEvents w keyOf' s' events := by
  induction events generalizing s s' with
  | nil => simp [ofEvents] at he
  | cons event events ih =>
    rcases List.mem_append.mp he with he | he
    · obtain ⟨c, arg, rfl, hp, hc, ha, hs⟩ := passes_mem_ofEvent.mp he
      obtain ⟨source', hs'⟩ := Run.escaping_below h hs
      exact ⟨c, source', List.mem_cons_self, hc, List.mem_append_left _
        (passes_mem_ofEvent.mpr ⟨c, arg, rfl, hp, rfl, ha, hs'⟩)⟩
    · obtain ⟨c, source', hm, hc, hp⟩ := ih (Event.rebound_below h w event) he
      exact ⟨c, source', List.mem_cons_of_mem _ hm, hc, List.mem_append_right _ hp⟩

end Effect

end ReadGuard
