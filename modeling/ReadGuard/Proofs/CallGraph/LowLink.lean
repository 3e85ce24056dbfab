import Mathlib.Data.List.Basic
import Mathlib.Logic.Relation
import ReadGuard.CallGraph.Components
import ReadGuard.Proofs.CallGraph.Sweep

namespace ReadGuard.CallGraph

variable {g : CallGraph} {key a b : String}

theorem mem_next : b ∈ g.next a ↔ g.Calls a b := by
  unfold next Calls
  cases hf : g.get? a with
  | none => simp
  | some f =>
    simp only [callees, FuncRecord.uniqueCalls, List.mem_map, List.mem_filterMap,
      List.mem_eraseDups, Option.some.injEq, exists_eq_left']
    constructor
    · rintro ⟨f', ⟨callee, hc, hf'⟩, rfl⟩
      rw [get?_key hf']
      exact ⟨hc, declares_of_get? hf'⟩
    · rintro ⟨hc, hd⟩
      obtain ⟨f', hf'⟩ := Option.isSome_iff_exists.mp hd
      exact ⟨f', ⟨b, hc, hf'⟩, get?_key hf'⟩

namespace Search

def rank (s : Search) (key : String) : Nat := (s.order.lookup key).getD 0

section Meet

variable (s : Search) (key k : String)

theorem lookup_meet :
    (s.meet key).order.lookup k = if k = key then some s.order.length else s.order.lookup k := by
  by_cases h : k = key
  · simp [meet, h]
  · have hb : (k == key) = false := by simpa using h
    simp [meet, List.lookup_cons, hb, h]

theorem isMet_meet : (s.meet key).isMet k = (k == key || s.isMet k) := by
  by_cases h : k = key <;> simp [isMet, lookup_meet, h]

theorem rank_meet_of_ne {k : String} (h : k ≠ key) : (s.meet key).rank k = s.rank k := by
  simp [rank, lookup_meet, h]

end Meet

structure Later (s s' : Search) : Prop where
  order : ∀ key n, s.order.lookup key = some n → s'.order.lookup key = some n
  length : s.order.length ≤ s'.order.length
  fresh : ∀ key, s.isMet key = false → s'.isMet key = true → s.order.length ≤ s'.rank key
  stack : s.stack <:+ s'.stack
  components : s.components <+: s'.components

namespace Later

variable {s s' s'' : Search}

theorem refl (s : Search) : Later s s :=
  ⟨fun _ _ h => h, Nat.le_refl _, fun _ h h' => absurd h' (by simp [h]), List.suffix_rfl,
    List.prefix_rfl⟩

theorem isMet (h : Later s s') (hk : s.isMet key = true) : s'.isMet key = true := by
  obtain ⟨n, hn⟩ := Option.isSome_iff_exists.mp hk
  simp [Search.isMet, h.order key n hn]

theorem rank (h : Later s s') (hk : s.isMet key = true) : s'.rank key = s.rank key := by
  obtain ⟨n, hn⟩ := Option.isSome_iff_exists.mp hk
  simp [Search.rank, hn, h.order key n hn]

theorem trans (h : Later s s') (h' : Later s' s'') : Later s s'' where
  order key n hn := h'.order key n (h.order key n hn)
  length := Nat.le_trans h.length h'.length
  fresh key hn hm := by
    by_cases hk : s'.isMet key = true
    · rw [h'.rank hk]
      exact h.fresh key hn hk
    · exact Nat.le_trans h.length (h'.fresh key (by simpa using hk) hm)
  stack := h.stack.trans h'.stack
  components := h.components.trans h'.components

theorem meet (s : Search) (hk : s.isMet key = false) : Later s (s.meet key) where
  order k n hn := by
    have hne : k ≠ key := by
      rintro rfl
      simp [Search.isMet, hn] at hk
    simp [lookup_meet, hne, hn]
  length := Nat.le_succ _
  fresh k hn hm := by
    have hk : k = key := by simpa [isMet_meet, hn] using hm
    simp [Search.rank, lookup_meet, hk]
  stack := List.suffix_cons key s.stack
  components := List.prefix_rfl

end Later

/-- Each component calls functions of its own and of the components before it only. -/
def Layered (g : CallGraph) (components : List (List String)) : Prop :=
  ∀ before c after, components = before ++ c :: after →
    ∀ a ∈ c, ∀ b, g.Calls a b → b ∈ c ∨ b ∈ before.flatten

theorem Layered.concat {components : List (List String)} (h : Layered g components)
    {c : List String} (hc : ∀ a ∈ c, ∀ b, g.Calls a b → b ∈ c ∨ b ∈ components.flatten) :
    Layered g (components ++ [c]) := by
  intro before d after he
  obtain hnil | ⟨rest, last, hlast⟩ := List.eq_nil_or_concat after
  · subst hnil
    obtain ⟨rfl, hd⟩ := List.append_inj' he rfl
    rw [List.cons.injEq] at hd
    rw [← hd.1]
    exact hc
  · rw [hlast, List.concat_eq_append, ← List.cons_append, ← List.append_assoc] at he
    exact h before d rest (List.append_inj' he rfl).1

/-- What is true of a search all through, while it looks at the calls of the functions on `path`,
each of them called by the next. A function on the stack leads to all those above it and back to the
path. -/
structure Valid (g : CallGraph) (path : List String) (s : Search) : Prop where
  met : ∀ key, s.isMet key = true ↔ key ∈ s.stack ∨ key ∈ s.components.flatten
  nodup : (s.stack ++ s.components.flatten).Nodup
  declared : ∀ key, s.isMet key = true → g.declares key = true
  rank_lt : ∀ key, s.isMet key = true → s.rank key < s.order.length
  onPath : path ⊆ s.stack
  upward : s.stack.Pairwise fun above key => Relation.ReflTransGen g.Calls key above
  back : ∀ key ∈ s.stack, ∃ p ∈ path, Relation.ReflTransGen g.Calls key p
  looked : ∀ key ∈ s.stack, key ∉ path → ∀ b, g.Calls key b → s.isMet b = true
  filled : [] ∉ s.components
  strong : ∀ c ∈ s.components, ∀ a ∈ c, ∀ b ∈ c, Relation.ReflTransGen g.Calls a b
  layered : Layered g s.components

namespace Valid

variable {path : List String} {s s' : Search}

theorem isMet_of_stack (h : Valid g path s) (hk : key ∈ s.stack) : s.isMet key = true :=
  (h.met key).mpr (.inl hk)

theorem not_mem_flatten (h : Valid g path s) (hk : key ∈ s.stack) :
    key ∉ s.components.flatten := fun hc => (List.nodup_append.mp h.nodup).2.2 key hk key hc rfl

/-- What was met before and is on the stack now was on the stack then. -/
theorem mem_stack_of_later (h : Valid g path s) {path' : List String} (h' : Valid g path' s')
    (hl : Later s s') (hm : s.isMet key = true) (hk : key ∈ s'.stack) : key ∈ s.stack := by
  refine ((h.met key).mp hm).resolve_right fun hc => h'.not_mem_flatten hk ?_
  obtain ⟨more, he⟩ := hl.components
  rw [← he, List.flatten_append]
  exact List.mem_append_left _ hc

theorem meet (h : Valid g path s) (hk : s.isMet key = false) (hd : g.declares key = true)
    (hp : ∀ p ∈ path, Relation.ReflTransGen g.Calls p key) :
    Valid g (key :: path) (s.meet key) := by
  have hl := Later.meet s hk
  have hnot : ¬ (key ∈ s.stack ∨ key ∈ s.components.flatten) := by
    rw [← h.met key, hk]
    exact Bool.false_ne_true
  rw [not_or] at hnot
  constructor
  case met =>
    intro k
    simp only [isMet_meet, Bool.or_eq_true, beq_iff_eq, h.met k]
    exact (or_assoc.symm.trans (or_congr_left List.mem_cons.symm))
  case nodup =>
    refine List.nodup_cons.mpr ⟨fun hm => ?_, h.nodup⟩
    exact (List.mem_append.mp hm).elim hnot.1 hnot.2
  case declared =>
    intro k hm
    by_cases he : k = key
    · rw [he]
      exact hd
    · exact h.declared k (by simpa [isMet_meet, he] using hm)
  case rank_lt =>
    intro k hm
    by_cases he : k = key
    · simp [rank, he, Search.meet]
    · have hr := h.rank_lt k (by simpa [isMet_meet, he] using hm)
      rw [rank_meet_of_ne s key he]
      exact Nat.lt_succ_of_lt hr
  case onPath => exact List.cons_subset_cons key h.onPath
  case upward =>
    refine List.pairwise_cons.mpr ⟨fun k hm => ?_, h.upward⟩
    obtain ⟨p, hpath, hr⟩ := h.back k hm
    exact hr.trans (hp p hpath)
  case back =>
    intro k hm
    obtain rfl | hm := List.mem_cons.mp hm
    · exact ⟨k, List.mem_cons_self, .refl⟩
    · obtain ⟨p, hpath, hr⟩ := h.back k hm
      exact ⟨p, List.mem_cons_of_mem _ hpath, hr⟩
  case looked =>
    intro k hm hpath b hc
    rw [List.mem_cons, not_or] at hpath
    have hm := (List.mem_cons.mp hm).resolve_left hpath.1
    exact hl.isMet (h.looked k hm hpath.2 b hc)
  case filled => exact h.filled
  case strong => exact h.strong
  case layered => exact h.layered

end Valid

/-- What is known after the search from a function: the calls of a function that was met and is
still on the stack lead to nothing on the former stack below the returned number, and a number below
those given out since belongs to a function that can be reached. -/
structure Connected (g : CallGraph) (path : List String) (s : Search) (key : String)
    (r : Nat × Search) : Prop where
  valid : Valid g path r.2
  later : Later s r.2
  met : r.2.isMet key = true
  bound : ∀ a ∈ r.2.stack, a ∉ s.stack → ∀ b ∈ s.stack, g.Calls a b → r.1 ≤ s.rank b
  attained : s.order.length ≤ r.1 ∨
    ∃ b ∈ s.stack, s.rank b = r.1 ∧ Relation.ReflTransGen g.Calls key b

/-- The same while the calls of the function are looked at, and only `rest` of them are left. Here
`s` is the search before the function was met. -/
structure Scanning (g : CallGraph) (path : List String) (s : Search) (key : String)
    (rest : List String) (low : Nat) (t : Search) : Prop where
  valid : Valid g (key :: path) t
  later : Later (s.meet key) t
  low_le : low ≤ s.order.length
  seen : ∀ b, g.Calls key b → b ∈ rest ∨ t.isMet b = true ∧ (b ∈ s.stack → low ≤ s.rank b)
  bound : ∀ a ∈ t.stack, a ∉ key :: s.stack → ∀ b ∈ s.stack, g.Calls a b → low ≤ s.rank b
  attained : low = s.order.length ∨
    ∃ b ∈ s.stack, s.rank b = low ∧ Relation.ReflTransGen g.Calls key b

namespace Scanning

variable {path rest : List String} {s t : Search} {low : Nat}

/-- A number below that of the function at hand was given out before. -/
theorem mem_stack_of_rank_lt (h : Scanning g path s key rest low t) (hs : Valid g path s)
    (hk : s.isMet key = false) (hb : b ∈ t.stack) (hr : t.rank b < s.order.length) :
    b ∈ s.stack ∧ s.rank b = t.rank b := by
  have hl : Later s t := (Later.meet s hk).trans h.later
  have hm : s.isMet b = true := by
    by_contra hn
    have := hl.fresh b (by simpa using hn) (h.valid.isMet_of_stack hb)
    omega
  exact ⟨hs.mem_stack_of_later h.valid hl hm hb, (hl.rank hm).symm⟩

/-- One more call was looked at, and `n` is the number of the earliest function that it leads to. -/
theorem step (h : Scanning g path s key (b :: rest) low t) {t' : Search}
    (hv : Valid g (key :: path) t') (hl : Later t t') (hm : t'.isMet b = true) {n : Nat}
    (hb : b ∈ s.stack → n ≤ s.rank b)
    (hnew : ∀ a ∈ t'.stack, a ∉ t.stack → ∀ c ∈ s.stack, g.Calls a c → n ≤ s.rank c)
    (hn : n < s.order.length →
      ∃ c ∈ s.stack, s.rank c = n ∧ Relation.ReflTransGen g.Calls key c) :
    Scanning g path s key rest (min low n) t' := by
  have hle : min low n ≤ low := Nat.min_le_left _ _
  have hle' : min low n ≤ n := Nat.min_le_right _ _
  refine ⟨hv, h.later.trans hl, Nat.le_trans hle h.low_le, fun c hc => ?_, ?_, ?_⟩
  · by_cases he : c = b
    · rw [he]
      exact .inr ⟨hm, fun hs => Nat.le_trans hle' (hb hs)⟩
    · obtain hc | ⟨hc, hs⟩ := h.seen c hc
      · exact .inl ((List.mem_cons.mp hc).resolve_left he)
      · exact .inr ⟨hl.isMet hc, fun hs' => Nat.le_trans hle (hs hs')⟩
  · intro a ha hk c hc hcall
    by_cases hat : a ∈ t.stack
    · exact Nat.le_trans hle (h.bound a hat hk c hc hcall)
    · exact Nat.le_trans hle' (hnew a ha hat c hc hcall)
  · by_cases hlt : n < low
    · have he : min low n = n := by omega
      rw [he]
      exact .inr (hn (Nat.lt_of_lt_of_le hlt h.low_le))
    · have he : min low n = low := by omega
      rw [he]
      exact h.attained

theorem onStack (h : Scanning g path s key (b :: rest) low t) (hs : Valid g path s)
    (hk : s.isMet key = false) (hc : g.Calls key b) (hb : b ∈ t.stack) :
    Scanning g path s key rest (min low (t.rank b)) t := by
  have hl : Later s t := (Later.meet s hk).trans h.later
  apply h.step h.valid (.refl t) (h.valid.isMet_of_stack hb)
  · exact fun hb' => Nat.le_of_eq (hl.rank (hs.isMet_of_stack hb'))
  · exact fun a ha hn => absurd ha hn
  · intro hlt
    obtain ⟨hb', hr⟩ := h.mem_stack_of_rank_lt hs hk hb hlt
    exact ⟨b, hb', hr, .single hc⟩

/-- A function that is in a component already is not on the stack below. -/
theorem offStack (h : Scanning g path s key (b :: rest) low t) (hm : t.isMet b = true)
    (hb : b ∉ t.stack) : Scanning g path s key rest low t := by
  have hstep := h.step (n := s.order.length) h.valid (.refl t) hm
    (fun hb' => absurd (h.later.stack.subset (List.mem_cons_of_mem _ hb')) hb)
    (fun a ha hn => absurd ha hn) (fun hlt => absurd hlt (Nat.lt_irrefl _))
  rwa [Nat.min_eq_left h.low_le] at hstep

theorem descend (h : Scanning g path s key (b :: rest) low t) (hs : Valid g path s)
    (hk : s.isMet key = false) (hc : g.Calls key b) (hb : t.isMet b = false) {r : Nat × Search}
    (hr : Connected g (key :: path) t b r) :
    Scanning g path s key rest (min low r.1) r.2 := by
  have hl : Later s t := (Later.meet s hk).trans h.later
  have hmet : ∀ c ∈ s.stack, t.isMet c = true := fun c hm => hl.isMet (hs.isMet_of_stack hm)
  apply h.step hr.valid hr.later hr.met
  · intro hb'
    rw [hmet b hb'] at hb
    cases hb
  · intro a ha hn c hm hcall
    rw [← hl.rank (hs.isMet_of_stack hm)]
    exact hr.bound a ha hn c (h.later.stack.subset (List.mem_cons_of_mem _ hm)) hcall
  · intro hlt
    obtain hge | ⟨c, hm, hn, hreach⟩ := hr.attained
    · have hlen := hl.length
      omega
    · obtain ⟨hm', hn'⟩ := h.mem_stack_of_rank_lt hs hk hm (hn ▸ hlt)
      exact ⟨c, hm', hn'.trans hn, .head hc hreach⟩

end Scanning

section Close

variable {path seg : List String} {s t : Search} {low : Nat}

theorem close_eq {rest : List String} (hs : t.stack = seg ++ key :: rest) (hk : key ∉ seg) :
    t.close key = { t with stack := rest, components := t.components ++ [seg ++ [key]] } := by
  have hseg : ∀ x ∈ seg, decide (x ≠ key) = true := fun x hx =>
    decide_eq_true fun he => hk (he ▸ hx)
  have htake : t.stack.takeWhile (· ≠ key) = seg := by
    rw [hs, List.takeWhile_append_of_pos hseg]
    simp
  have hdrop : t.stack.dropWhile (· ≠ key) = key :: rest := by
    rw [hs, List.dropWhile_append_of_pos hseg]
    simp
  simp only [close, htake, hdrop, List.drop_one, List.tail_cons]

/-- The stack above the function at hand. -/
theorem Scanning.exists_segment (h : Scanning g path s key [] low t) :
    ∃ seg, t.stack = seg ++ key :: s.stack ∧ key ∉ seg := by
  obtain ⟨seg, hseg⟩ := h.later.stack
  have hn := (List.nodup_append.mp h.valid.nodup).1
  rw [← hseg] at hn
  exact ⟨seg, hseg.symm, fun hk =>
    (List.nodup_append.mp hn).2.2 key hk key List.mem_cons_self rfl⟩

/-- All calls of what was met since have been looked at. -/
theorem Scanning.calls (h : Scanning g path s key [] low t) (hs : Valid g path s)
    (ha : a ∈ t.stack) (hn : a ∉ s.stack) (hc : g.Calls a b) :
    t.isMet b = true ∧ (b ∈ s.stack → low ≤ s.rank b) := by
  by_cases he : a = key
  · exact (h.seen b (he ▸ hc)).resolve_left List.not_mem_nil
  · have hpath : a ∉ key :: path := by
      rw [List.mem_cons, not_or]
      exact ⟨he, fun hp => hn (hs.onPath hp)⟩
    have hstack : a ∉ key :: s.stack := by
      rw [List.mem_cons, not_or]
      exact ⟨he, hn⟩
    exact ⟨h.valid.looked a ha hpath b hc, fun hb => h.bound a ha hstack b hb hc⟩

/-- If the calls lead to an earlier function, the function at hand stays on the stack. -/
theorem Scanning.stays (h : Scanning g path s key [] low t) (hs : Valid g path s)
    (hk : s.isMet key = false) (hlow : low ≠ s.order.length) :
    Connected g path s key (low, t) := by
  have hv := h.valid
  have hl : Later s t := (Later.meet s hk).trans h.later
  obtain ⟨c, hcs, hrank, hreach⟩ := h.attained.resolve_left hlow
  refine ⟨⟨hv.met, hv.nodup, hv.declared, hv.rank_lt, ?_, hv.upward, ?_, ?_, hv.filled, hv.strong,
    hv.layered⟩, hl, ?_, ?_, .inr ⟨c, hcs, hrank, hreach⟩⟩
  · exact fun p hp => hv.onPath (List.mem_cons_of_mem _ hp)
  · intro k hks
    obtain ⟨p, hp, hr⟩ := hv.back k hks
    by_cases he : p = key
    · obtain ⟨p', hp', hr'⟩ := hs.back c hcs
      subst he
      exact ⟨p', hp', hr.trans (hreach.trans hr')⟩
    · exact ⟨p, (List.mem_cons.mp hp).resolve_left he, hr⟩
  · intro k hks hp b hc
    by_cases hold : k ∈ s.stack
    · exact hl.isMet (hs.looked k hold hp b hc)
    · exact (h.calls hs hks hold hc).1
  · exact hv.isMet_of_stack (h.later.stack.subset List.mem_cons_self)
  · exact fun a ha hn b hb hc => (h.calls hs ha hn hc).2 hb

theorem Scanning.mem_segment (h : Scanning g path s key [] low t)
    (hst : t.stack = seg ++ key :: s.stack) (ha : a ∈ seg ++ [key]) : a ∈ t.stack ∧ a ∉ s.stack := by
  have hn := (List.nodup_append.mp h.valid.nodup).1
  rw [hst, List.append_cons] at hn ⊢
  exact ⟨List.mem_append_left _ ha, fun hm => (List.nodup_append.mp hn).2.2 a ha a hm rfl⟩

theorem Scanning.reaches_key (h : Scanning g path s key [] low t)
    (hp : ∀ p ∈ path, Relation.ReflTransGen g.Calls p key) (ha : a ∈ t.stack) :
    Relation.ReflTransGen g.Calls a key := by
  obtain ⟨p, hpp, hr⟩ := h.valid.back a ha
  by_cases he : p = key
  · exact he ▸ hr
  · exact hr.trans (hp p ((List.mem_cons.mp hpp).resolve_left he))

theorem Scanning.key_reaches (h : Scanning g path s key [] low t)
    (hst : t.stack = seg ++ key :: s.stack) (ha : a ∈ seg ++ [key]) :
    Relation.ReflTransGen g.Calls key a := by
  have hup := h.valid.upward
  rw [hst, List.pairwise_append] at hup
  obtain ha | ha := List.mem_append.mp ha
  · exact hup.2.2 a ha key List.mem_cons_self
  · rw [List.mem_singleton.mp ha]

/-- No call leads from the top of the stack to what is below: it would have lowered the number. -/
theorem Scanning.calls_inside (h : Scanning g path s key [] low t) (hs : Valid g path s)
    (hlow : low = s.order.length) (hst : t.stack = seg ++ key :: s.stack)
    (ha : a ∈ t.stack ∧ a ∉ s.stack) (hc : g.Calls a b) :
    b ∈ seg ++ [key] ∨ b ∈ t.components.flatten := by
  obtain ⟨hb, hle⟩ := h.calls hs ha.1 ha.2 hc
  apply ((h.valid.met b).mp hb).imp_left
  intro hb
  rw [hst, List.append_cons, List.mem_append] at hb
  refine hb.resolve_right fun hbs => ?_
  have hlt := hs.rank_lt b (hs.isMet_of_stack hbs)
  have hge := hle hbs
  omega

/-- If they lead to no earlier one, it is a component with all that is above it on the stack. -/
theorem Scanning.closes (h : Scanning g path s key [] low t) (hs : Valid g path s)
    (hk : s.isMet key = false) (hp : ∀ p ∈ path, Relation.ReflTransGen g.Calls p key)
    (hlow : low = s.order.length) : Connected g path s key (low, t.close key) := by
  obtain ⟨seg, hst, hseg⟩ := h.exists_segment
  have hv := h.valid
  have hl : Later s t := (Later.meet s hk).trans h.later
  have hperm : (s.stack ++ (t.components ++ [seg ++ [key]]).flatten).Perm
      (t.stack ++ t.components.flatten) := by
    rw [hst, List.append_cons seg key s.stack, List.flatten_append, List.flatten_singleton,
      ← List.append_assoc, List.append_assoc (seg ++ [key])]
    exact List.perm_append_comm
  rw [close_eq hst hseg]
  refine ⟨⟨?_, hperm.nodup_iff.mpr hv.nodup, hv.declared, hv.rank_lt, hs.onPath, hs.upward, hs.back,
    ?_, by simp [hv.filled], ?_, ?_⟩, ⟨hl.order, hl.length, hl.fresh, List.suffix_rfl, ?_⟩,
    ?_, ?_, ?_⟩
  · intro k
    rw [← List.mem_append, hperm.mem_iff, List.mem_append]
    exact hv.met k
  · exact fun k hks hpath b hc => hl.isMet (hs.looked k hks hpath b hc)
  · intro c hc a ha b hb
    obtain hc | hc := List.mem_append.mp hc
    · exact hv.strong c hc a ha b hb
    · rw [List.mem_singleton.mp hc] at ha hb
      exact (h.reaches_key hp (h.mem_segment hst ha).1).trans (h.key_reaches hst hb)
  · exact hv.layered.concat fun a ha b hc => h.calls_inside hs hlow hst (h.mem_segment hst ha) hc
  · exact hl.components.trans (List.prefix_append _ _)
  · exact hv.isMet_of_stack (h.later.stack.subset List.mem_cons_self)
  · exact fun a ha hn => absurd ha hn
  · exact .inl (Nat.le_of_eq hlow.symm)

end Close

section Connect

variable {path : List String} {s t : Search} {low : Nat}

theorem scan_scanning {look : String → Search → Nat × Search}
    (hlook : ∀ b t, Later (s.meet key) t → Valid g (key :: path) t → g.Calls key b →
      t.isMet b = false → Connected g (key :: path) t b (look b t))
    (hs : Valid g path s) (hk : s.isMet key = false) (rest : List String)
    (hrest : ∀ b ∈ rest, g.Calls key b) (h : Scanning g path s key rest low t) :
    Scanning g path s key [] (scan look rest low t).1 (scan look rest low t).2 := by
  induction rest generalizing low t with
  | nil => exact h
  | cons b rest ih =>
    have hc := hrest b List.mem_cons_self
    have hrest' : ∀ b ∈ rest, g.Calls key b := fun b hb => hrest b (List.mem_cons_of_mem _ hb)
    rw [scan]
    cases hn : t.order.lookup b with
    | none =>
      have hb : t.isMet b = false := by simp [isMet, hn]
      exact ih hrest' (h.descend hs hk hc hb (hlook b t h.later h.valid hc hb))
    | some n =>
      have hrank : t.rank b = n := by simp [rank, hn]
      by_cases hb : b ∈ t.stack
      · simp only [List.contains_iff_mem.mpr hb, if_true]
        exact ih hrest' (hrank ▸ h.onStack hs hk hc hb)
      · have hcontains : t.stack.contains b = false := by simpa using hb
        simp only [hcontains, Bool.false_eq_true, if_false]
        exact ih hrest' (h.offStack (by simp [isMet, hn]) hb)

def unmet (g : CallGraph) (s : Search) : Nat := (g.keys.filter fun k => !s.isMet k).length

theorem unmet_lt (hk : s.isMet key = false) (hd : g.declares key = true)
    (hl : Later (s.meet key) t) : unmet g t < unmet g s := by
  have hs : Later s t := (Later.meet s hk).trans hl
  have hf : (g.keys.filter fun k => !t.isMet k) =
      (g.keys.filter fun k => !s.isMet k).filter fun k => !t.isMet k := by
    rw [List.filter_filter]
    apply List.filter_congr
    intro k _
    cases hm : s.isMet k with
    | true => simp [hs.isMet hm]
    | false => simp
  have hm : t.isMet key = true := hl.isMet (by simp [isMet_meet])
  unfold unmet
  rw [hf, List.length_filter_lt_length_iff_exists]
  exact ⟨key, List.mem_filter.mpr ⟨declares_iff.mp hd, by simp [hk]⟩, by simp [hm]⟩

/-- The limit on the depth is never met: at each level a function is met. -/
theorem connect_connected (limit : Nat) (hs : Valid g path s) (hk : s.isMet key = false)
    (hd : g.declares key = true) (hp : ∀ p ∈ path, Relation.ReflTransGen g.Calls p key)
    (hlimit : unmet g s ≤ limit) : Connected g path s key (connect g.next limit key s) := by
  induction limit generalizing path key s with
  | zero =>
    have hlt := unmet_lt hk hd (.refl _)
    omega
  | succ limit ih =>
    have hstart : Scanning g path s key (g.next key) s.order.length (s.meet key) :=
      ⟨hs.meet hk hd hp, .refl _, Nat.le_refl _, fun b hc => .inl (mem_next.mpr hc),
        fun a ha hn => absurd ha hn, .inl rfl⟩
    have hlook : ∀ b t, Later (s.meet key) t → Valid g (key :: path) t → g.Calls key b →
        t.isMet b = false → Connected g (key :: path) t b (connect g.next limit b t) := by
      intro b t hl hv hc hb
      have hlt := unmet_lt hk hd hl
      obtain ⟨-, -, -, hdb⟩ := id hc
      refine ih hv hb hdb (fun p hpp => ?_) (by omega)
      obtain rfl | hpp := List.mem_cons.mp hpp
      · exact .single hc
      · exact (hp p hpp).tail hc
    have hscan := scan_scanning hlook hs hk _ (fun b hb => mem_next.mp hb) hstart
    simp only [connect]
    split
    case isTrue hlow => exact hscan.closes hs hk hp hlow
    case isFalse hlow => exact hscan.stays hs hk hlow

end Connect

end Search

end ReadGuard.CallGraph
