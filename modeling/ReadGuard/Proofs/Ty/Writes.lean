import ReadGuard.Ty.Printer
import ReadGuard.Proofs.Ty.Node
import ReadGuard.Proofs.Ty.Reading

namespace ReadGuard.Ty

open Ty.Rule Ty.Grammar

/-- A channel or an untyped basic type: its text starts with a word and a blank, as a named field or
parameter does. -/
def startsWithWord : Ty → Bool
  | .chan _ => true
  | .basic name => "untyped ".toList.isPrefixOf name.toList
  | _ => false

def isOpening (c : Char) : Bool := !Text.isMargin c && c ≠ '(' && c ≠ '.'

theorem isOpening_of_nameStart {c : Char} (h : isNameStart c = true) : isOpening c = true := by
  have hname := nameChar_of_identChar (identChar_of_nameStart h)
  have hparen : c ≠ '(' := by
    rintro rfl
    cases h
  have hdot : c ≠ '.' := by
    rintro rfl
    cases h
  simp [isOpening, not_margin_of_nameChar hname, hparen, hdot]

theorem toList_toString (n : Nat) : (toString (n : Int)).toList = Nat.toDigits 10 n := by
  rw [Int.toString_eq_repr, Int.repr_eq_if]
  simp

theorem isWord_toDigits (n : Nat) : IsWord Char.isDigit Char.isDigit (Nat.toDigits 10 n) := by
  have hdigit : ∀ d ∈ Nat.toDigits 10 n, d.isDigit = true :=
    fun d => Nat.isDigit_of_mem_toDigits (by decide) (by decide)
  cases hds : Nat.toDigits 10 n with
  | nil => exact absurd hds Nat.toDigits_ne_nil
  | cons d ds =>
    rw [hds] at hdigit
    exact ⟨d, ds, rfl, List.forall_mem_cons.mp hdigit⟩

theorem length_append {n : Nat} (hn : (Nat.toDigits 10 n).length ≤ maxLengthDigits)
    {rest : List Char} (hr : Stops rest) : length (Nat.toDigits 10 n ++ rest) = some (n, rest) := by
  have hstop : ∀ d ∈ rest.head?, d.isDigit = false := by
    intro d hd
    obtain rfl | rfl | rfl | rfl | rfl := stop_cases (hr d hd) <;> rfl
  have hvalue := @Nat.ofDigitChars_ten_toDigits n
  rw [Nat.ofDigitChars_eq_foldl] at hvalue
  rw [length, andThen_of_some (word_append (isWord_toDigits n) hstop), if_neg (Nat.not_lt.mpr hn)]
  exact congrArg (fun n => some (n, rest)) hvalue

theorem closes_of_name (cs : List Char) {w : List Char} (hw : IsWord isNameStart isNameChar w) :
    ∃ ds c, cs ++ w = ds ++ [c] ∧ Text.isMargin c = false := by
  have hchars := nameChars hw
  cases List.eq_nil_or_concat w with
  | inl he =>
    obtain ⟨c, ds, rfl, -⟩ := hw
    cases he
  | inr he =>
    obtain ⟨ds, c, rfl⟩ := he
    exact ⟨cs ++ ds, c, by simp, not_margin_of_nameChar (hchars c (by simp))⟩

/-- A text that a rule takes for a type, wherever a type may stand in another one. -/
structure Writes (type : Rule Ty) (s : String) (t : Ty) : Prop where
  opens : ∃ c cs, s.toList = c :: cs ∧ isOpening c = true
  closes : ∃ cs c, s.toList = cs ++ [c] ∧ Text.isMargin c = false
  wordless : t.startsWithWord = false → ∀ rest, Stops rest →
    Bare ((s.toList ++ rest).dropWhile isIdentChar)
  reads : ∀ rest, Stops rest → type (s.toList ++ rest) = some (t, rest)

namespace Writes

variable {type : Rule Ty} {s r : String} {t u : Ty}

theorem bare (h : Writes type s t) (rest : List Char) : Bare (s.toList ++ rest) := by
  obtain ⟨c, cs, hs, hc⟩ := h.opens
  simp only [isOpening, Bool.and_eq_true, Bool.not_eq_true'] at hc
  rw [hs]
  exact bare_cons (not_blank_of_not_margin hc.1.1)

theorem head_ne (h : Writes type s t) {c : Char} (hc : isOpening c = false) (rest : List Char) :
    (s.toList ++ rest).head? ≠ some c := by
  obtain ⟨d, cs, hs, hd⟩ := h.opens
  rw [hs]
  intro he
  cases he
  rw [hc] at hd
  cases hd

theorem closes_append (h : Writes type s t) (before : String) :
    ∃ cs c, (before ++ s).toList = cs ++ [c] ∧ Text.isMargin c = false := by
  obtain ⟨cs, c, hs, hc⟩ := h.closes
  exact ⟨before.toList ++ cs, c, by rw [String.toList_append, hs, List.append_assoc], hc⟩

/-- A text that starts with a keyword or a mark never looks like a name and a blank. -/
theorem of_mark (w : List Char) (c : Char) {cs : List Char} (hs : s.toList = w ++ c :: cs)
    (hw : w.all isIdentChar = true) (hc : isIdentChar c = false ∧ Text.isBlank c = false)
    (hopen : (w ++ [c]).head?.all isOpening = true)
    (hclose : ∃ cs c, s.toList = cs ++ [c] ∧ Text.isMargin c = false)
    (hread : ∀ rest, Stops rest → type (s.toList ++ rest) = some (t, rest)) : Writes type s t where
  opens := by
    cases w with
    | nil => exact ⟨c, cs, hs, hopen⟩
    | cons d w => exact ⟨d, w ++ c :: cs, hs, hopen⟩
  closes := hclose
  wordless := by
    intro _ rest _
    rw [hs, List.append_assoc, List.dropWhile_append_of_pos (List.all_eq_true.mp hw),
      List.cons_append,
      List.dropWhile_cons, if_neg (by simp [hc.1])]
    exact bare_cons hc.2
  reads := hread

theorem pointer (h : Writes type s t) : Writes (alternatives type) ("*" ++ s) (.pointer t) := by
  apply of_mark [] '*' (String.toList_append ..) rfl ⟨rfl, rfl⟩ rfl
    (h.closes_append "*")
  intro rest hr
  rw [String.toList_append, List.append_assoc]
  apply choose_pointer
  rw [Grammar.pointer, andThen_of_some (mark_append "*" (h.bare rest)),
    andThen_of_some (h.reads rest hr)]
  rfl

theorem slice (h : Writes type s t) : Writes (alternatives type) ("[]" ++ s) (.slice t) := by
  apply of_mark [] '[' (String.toList_append ..) rfl ⟨rfl, rfl⟩ rfl
    (h.closes_append "[]")
  intro rest hr
  have ht : ("[]" ++ s).toList ++ rest = "[".toList ++ ("]".toList ++ (s.toList ++ rest)) := by
    simp [String.toList_append]
  have hclose : Bare ("]".toList ++ (s.toList ++ rest)) := bare_cons rfl
  rw [ht]
  apply choose_slice rfl
  rw [Grammar.slice, andThen_of_some (mark_append "[" hclose),
    andThen_of_some (mark_append "]" (h.bare rest)), andThen_of_some (h.reads rest hr)]
  rfl

theorem map (hk : Writes type r u) (h : Writes type s t) :
    Writes (alternatives type) (TypeText.map r s) (.map u t) := by
  have hs : (TypeText.map r s).toList =
      "map".toList ++ ("[".toList ++ (r.toList ++ ("]".toList ++ s.toList))) := by
    simp [TypeText.map, String.toList_append]
  apply of_mark "map".toList '[' hs rfl ⟨rfl, rfl⟩ rfl (h.closes_append _)
  intro rest hr
  have hopen : Bare ("[".toList ++ (r.toList ++ ("]".toList ++ (s.toList ++ rest)))) :=
    bare_cons rfl
  have hstop : Stops ("]".toList ++ (s.toList ++ rest)) := stops_cons rfl
  rw [hs]
  simp only [List.append_assoc]
  apply choose_map rfl
  rw [Grammar.map, andThen_of_some (mark_append "map" hopen),
    andThen_of_some (mark_append "[" (hk.bare _)),
    andThen_of_some (padded_of_some (hk.reads _ hstop) hstop.bare),
    andThen_of_some (mark_append "]" (h.bare rest)), andThen_of_some (h.reads rest hr)]
  rfl

theorem chan (h : Writes type s t) : Writes (alternatives type) ("chan " ++ s) (.chan t) where
  opens := ⟨'c', _, String.toList_append .., by decide⟩
  closes := h.closes_append "chan "
  wordless hw := nomatch hw
  reads := by
    intro rest hr
    have ht : ("chan " ++ s).toList ++ rest = "chan".toList ++ ' ' :: (s.toList ++ rest) := by
      simp [String.toList_append]
    rw [ht]
    apply choose_chan rfl
    have hsend : literal "chan<-".toList ("chan".toList ++ ' ' :: (s.toList ++ rest)) = none :=
      literal_of_not (by simp)
    have hreceive : literal "<-chan".toList ("chan".toList ++ ' ' :: (s.toList ++ rest)) = none :=
      literal_of_not (by simp)
    have hboth := (orElse_of_none ((orElse_of_none hsend).trans hreceive)).trans
      (literal_append "chan".toList (' ' :: (s.toList ++ rest)))
    rw [Grammar.chan, andThen_of_some hboth, andThen_of_some (gap_space (h.bare rest)),
      andThen_of_some (h.reads rest hr)]
    rfl

theorem interface : Writes (alternatives type) TypeText.interface .interface := by
  apply of_mark "interface".toList '\x7b' rfl rfl ⟨rfl, rfl⟩ rfl
    ⟨"interface\x7b".toList, '\x7d', rfl, rfl⟩
  intro rest _
  have ht : TypeText.interface.toList ++ rest =
      "interface".toList ++ (['\x7b'] ++ '\x7d' :: rest) := rfl
  have hopen : Bare (['\x7b'] ++ '\x7d' :: rest) := bare_cons rfl
  apply choose_interface rfl
  rw [ht, Grammar.interface, andThen_of_some (mark_append "interface" hopen),
    andThen_of_some (literal_append ['\x7b'] ('\x7d' :: rest))]
  simp [literal]

theorem array {n : Nat} (hn : (Nat.toDigits 10 n).length ≤ maxLengthDigits) (h : Writes type s t) :
    Writes (alternatives type) (TypeText.array n s) (.array n t) := by
  have hs : (TypeText.array n s).toList =
      "[".toList ++ (Nat.toDigits 10 n ++ ("]".toList ++ s.toList)) := by
    simp only [TypeText.array, String.toList_append, toList_toString, List.append_assoc]
  apply of_mark [] '[' hs rfl ⟨rfl, rfl⟩ rfl (h.closes_append _)
  intro rest hr
  have hstop : Stops ("]".toList ++ (s.toList ++ rest)) := stops_cons rfl
  obtain ⟨d, ds, hds, hd, -⟩ := isWord_toDigits n
  have hne : d ≠ ']' := by
    rintro rfl
    cases hd
  have hbare : Bare (Nat.toDigits 10 n ++ ("]".toList ++ (s.toList ++ rest))) := by
    rw [hds]
    exact bare_cons (not_blank_of_digit hd)
  have hslice : Grammar.slice type
      ("[".toList ++ (Nat.toDigits 10 n ++ ("]".toList ++ (s.toList ++ rest)))) = none := by
    rw [Grammar.slice, andThen_of_some (mark_append "[" hbare), hds]
    exact andThen_of_none (mark_none rfl (Grammar.head_ne rfl hne)) _
  rw [hs]
  simp only [List.append_assoc]
  apply choose_array rfl hslice
  rw [Grammar.array, andThen_of_some (mark_append "[" hbare),
    andThen_of_some (padded_of_some (length_append hn hstop) hstop.bare),
    andThen_of_some (mark_append "]" (h.bare rest)), andThen_of_some (h.reads rest hr)]
  rfl

theorem name {w : List Char} (hw : IsWord isNameStart isNameChar w) :
    Writes (alternatives type) (String.ofList w) (ofName (String.ofList w)) where
  opens := by
    obtain ⟨c, ds, rfl, hc, -⟩ := hw
    exact ⟨c, ds, String.toList_ofList, isOpening_of_nameStart hc⟩
  closes := by
    rw [String.toList_ofList]
    exact closes_of_name [] hw
  wordless := by
    intro _ rest hr
    rw [String.toList_ofList]
    exact (sealed_dropWhile isIdentChar (nameChars hw) hr fun c => not_identChar_of_stop).bare
  reads := by
    intro rest hr
    rw [String.toList_ofList]
    exact choose_name hw hr

theorem untyped {w : List Char} (hw : IsWord isNameStart isIdentChar w) :
    Writes (alternatives type) ("untyped " ++ String.ofList w)
      (.basic ("untyped " ++ String.ofList w)) where
  opens := ⟨'u', _, String.toList_append .., by decide⟩
  closes := by
    have hs : ("untyped " ++ String.ofList w).toList = "untyped ".toList ++ w := by
      simp [String.toList_append]
    obtain ⟨c, ds, rfl, hc, hds⟩ := hw
    rw [hs]
    exact closes_of_name _ ⟨c, ds, rfl, hc, fun d hd => nameChar_of_identChar (hds d hd)⟩
  wordless := by
    simp [startsWithWord, String.toList_append]
  reads := by
    intro rest hr
    have ht : ("untyped " ++ String.ofList w).toList ++ rest =
        "untyped".toList ++ ' ' :: (w ++ rest) := by
      simp [String.toList_append]
    have hbare : Bare (w ++ rest) := by
      obtain ⟨c, ds, rfl, hc, -⟩ := hw
      exact bare_cons (not_blank_of_nameStart hc)
    have hstop : ∀ d ∈ rest.head?, isIdentChar d = false :=
      fun d hd => not_identChar_of_stop (hr d hd)
    rw [ht]
    apply choose_untyped rfl
    rw [Grammar.untyped, andThen_of_some (literal_append _ _), andThen_of_some (gap_space hbare),
      andThen_of_some (ident_append hw hstop)]
    rfl

theorem not_named (h : Writes type s t) (ht : t.startsWithWord = false) {rest : List Char}
    (hr : Stops rest) {β : Type} (next : String → Rule β) :
    (ident.andThen fun name => gap.andThen fun _ => next name) (s.toList ++ rest) = none := by
  obtain hnone | ⟨name, hsome⟩ := ident_cases (s.toList ++ rest)
  · exact andThen_of_none hnone _
  · rw [andThen_of_some hsome]
    exact andThen_of_none (gap_of_bare (h.wordless ht rest hr)) _

theorem param_reads (h : Writes type s t) (ht : t.startsWithWord = false) {rest : List Char}
    (hr : Stops rest) : Grammar.param type (s.toList ++ rest) = some (t, rest) := by
  have hnamed : namedParam type (s.toList ++ rest) = none := h.not_named ht hr _
  have hvariadic : variadic type (s.toList ++ rest) = none := variadic_none (h.head_ne rfl rest)
  rw [Grammar.param, orElse_of_none ((orElse_of_none hnamed).trans hvariadic)]
  exact h.reads rest hr

theorem field_reads {f : Field Ty} (hf : FieldNamed f) (h : Writes type s f.type)
    (he : f.embedded = true → f.type.startsWithWord = false) {rest : List Char} (hr : Stops rest) :
    Grammar.field type ((TypeText.field ⟨f.name, s, f.embedded⟩).toList ++ rest) =
      some (f, rest) := by
  obtain ⟨name, t, embedded⟩ := f
  cases embedded with
  | true =>
    have hnamed : namedField type (s.toList ++ rest) = none := h.not_named (he rfl) hr _
    have hname : name = t.stripPointers.name := hf
    rw [TypeText.field, if_pos rfl, Grammar.field, orElse_of_none hnamed, embeddedField,
      andThen_of_some (padded_of_some (h.reads rest hr) hr.bare), hname]
    rfl
  | false =>
    have hw : IsWord isNameStart isIdentChar name.toList := hf
    have ht : (TypeText.field ⟨name, s, false⟩).toList ++ rest =
        name.toList ++ ' ' :: (s.toList ++ rest) := by
      simp [TypeText.field, String.toList_append]
    have hspace : ∀ d ∈ (' ' :: (s.toList ++ rest)).head?, isIdentChar d = false := by
      rintro d ⟨⟩
      rfl
    have hread : namedField type (name.toList ++ ' ' :: (s.toList ++ rest)) =
        some (⟨name, t, false⟩, rest) := by
      rw [namedField, andThen_of_some (ident_append hw hspace),
        andThen_of_some (gap_space (h.bare rest)), andThen_of_some (h.reads rest hr),
        String.ofList_toList]
      rfl
    rw [ht, Grammar.field, orElse_of_some hread]

theorem field_bare {f : Field Ty} (hf : FieldNamed f) (h : Writes type s f.type)
    (rest : List Char) : Bare ((TypeText.field ⟨f.name, s, f.embedded⟩).toList ++ rest) := by
  obtain ⟨name, t, embedded⟩ := f
  cases embedded with
  | true => exact h.bare rest
  | false =>
    obtain ⟨c, ds, hname, hc, -⟩ : IsWord isNameStart isIdentChar name.toList := hf
    have hs : (TypeText.field ⟨name, s, false⟩).toList = c :: (ds ++ ' ' :: s.toList) := by
      simp [TypeText.field, String.toList_append, hname]
    rw [hs]
    exact bare_cons (not_blank_of_nameStart hc)

theorem toList_struct (text : Ty → String) (fs : List (Field Ty)) :
    (TypeText.struct (fs.map fun f => { f with type := text f.type })).toList =
      "struct".toList ++ ("\x7b".toList ++
        (joined ";" (fun f => (TypeText.field ⟨f.name, text f.type, f.embedded⟩).toList) fs ++
          ['\x7d'])) := by
  simp [TypeText.struct, joined, String.toList_append, String.toList_intercalate,
    Function.comp_def]

def resultsText (text : Ty → String) : List Ty → List Char
  | [] => []
  | [t] => ' ' :: (text t).toList
  | ts => ' ' :: ("(".toList ++ (joined "," (fun t => (text t).toList) ts ++ [')']))

theorem toList_func (text : Ty → String) (ps rs : List Ty) :
    (TypeText.func (ps.map text) (rs.map text)).toList = "func".toList ++ ("(".toList ++
      (joined "," (fun t => (text t).toList) ps ++ ([')'] ++ resultsText text rs))) := by
  match rs with
  | [] | [_] | _ :: _ :: _ =>
    simp [TypeText.func, resultsText, joined, String.toList_append, String.toList_intercalate,
      Function.comp_def]

theorem closes_results {text : Ty → String} {ts : List Ty} (h : ∀ t ∈ ts, Writes type (text t) t) :
    ∃ cs c, [')'] ++ resultsText text ts = cs ++ [c] ∧ Text.isMargin c = false := by
  match ts with
  | [] => exact ⟨[], ')', rfl, rfl⟩
  | [t] =>
    obtain ⟨cs, c, hs, hc⟩ := (h t List.mem_cons_self).closes
    exact ⟨')' :: ' ' :: cs, c, by simp [resultsText, hs], hc⟩
  | t :: u :: ts =>
    exact ⟨')' :: ' ' :: ("(".toList ++ joined "," (fun t => (text t).toList) (t :: u :: ts)), ')',
      by simp [resultsText], rfl⟩

section Lists

variable {text : Ty → String} (htype : ∀ cs, Stops cs → type cs = none)

include htype

theorem tuple_reads {ts : List Ty} (h : ∀ t ∈ ts, Writes type (text t) t)
    (hw : ∀ t ∈ ts, t.startsWithWord = false) (rest : List Char) :
    Grammar.tuple type ("(".toList ++
      (joined "," (fun t => (text t).toList) ts ++ ([')'] ++ rest))) = some (ts, rest) := by
  have hstop : Stops ([')'] ++ rest) := stops_cons rfl
  have hbare : Bare (joined "," (fun t => (text t).toList) ts ++ ([')'] ++ rest)) :=
    bare_joined (fun t ht => (h t ht).bare) hstop.bare
  have hlist : optionalList (separated "," (Grammar.param type))
      (joined "," (fun t => (text t).toList) ts ++ ([')'] ++ rest)) = some (ts, [')'] ++ rest) := by
    by_cases hts : ts = []
    · subst hts
      exact optionalList_of_none (andThen_of_none (param_none htype hstop) _)
    · apply optionalList_of_some
      exact separated_append hts (fun t ht _ hr => (h t ht).param_reads (hw t ht) hr)
        (fun t ht => (h t ht).bare) (fun _ => bare_cons rfl) (fun _ => stops_cons rfl) hstop
        hstop.bare (by simp)
  rw [Grammar.tuple, andThen_of_some (mark_append "(" hbare),
    andThen_of_some (padded_of_some hlist hstop.bare),
    andThen_of_some (literal_append [')'] rest)]
  rfl

theorem fields_reads {fs : List (Field Ty)} (hf : ∀ f ∈ fs, FieldNamed f)
    (h : ∀ f ∈ fs, Writes type (text f.type) f.type)
    (hw : ∀ f ∈ fs, f.embedded = true → f.type.startsWithWord = false) (rest : List Char) :
    optionalList (Grammar.fields type)
      (joined ";" (fun f => (TypeText.field ⟨f.name, text f.type, f.embedded⟩).toList) fs ++
        (['\x7d'] ++ rest)) = some (fs, ['\x7d'] ++ rest) := by
  have hstop : Stops (['\x7d'] ++ rest) := stops_cons rfl
  by_cases hfs : fs = []
  · subst hfs
    exact optionalList_of_none (andThen_of_none (andThen_of_none (field_none htype hstop) _) _)
  · apply optionalList_of_some
    have hread : separated ";" (Grammar.field type) _ = _ :=
      separated_append hfs (fun f hm _ hr => (h f hm).field_reads (hf f hm) (hw f hm) hr)
        (fun f hm => (h f hm).field_bare (hf f hm)) (fun _ => bare_cons rfl)
        (fun _ => stops_cons rfl) hstop hstop.bare (by simp)
    have hlast : optional (blanks.andThen fun _ => literal [';']) (['\x7d'] ++ rest) =
        some (none, ['\x7d'] ++ rest) := by
      have hnone : (blanks.andThen fun _ => literal [';']) (['\x7d'] ++ rest) = none := by
        rw [andThen_of_some (blanks_of_bare hstop.bare)]
        exact literal_of_not (by simp)
      simp only [Rule.optional, hnone]
    rw [Grammar.fields, andThen_of_some hread, andThen_of_some hlast]
    rfl

theorem struct {fs : List (Field Ty)} (hf : ∀ f ∈ fs, FieldNamed f)
    (h : ∀ f ∈ fs, Writes type (text f.type) f.type)
    (hw : ∀ f ∈ fs, f.embedded = true → f.type.startsWithWord = false) :
    Writes (alternatives type)
      (TypeText.struct (fs.map fun f => { f with type := text f.type })) (.struct fs) := by
  have hs := toList_struct text fs
  apply of_mark "struct".toList '\x7b' hs rfl ⟨rfl, rfl⟩ rfl
  · exact ⟨_, '\x7d', by rw [hs, ← List.append_assoc, ← List.append_assoc], rfl⟩
  intro rest hr
  have hstop : Stops (['\x7d'] ++ rest) := stops_cons rfl
  have hopen : Bare ("\x7b".toList ++
      (joined ";" (fun f => (TypeText.field ⟨f.name, text f.type, f.embedded⟩).toList) fs ++
        (['\x7d'] ++ rest))) := bare_cons rfl
  have hbare : Bare (joined ";" (fun f => (TypeText.field ⟨f.name, text f.type, f.embedded⟩).toList)
      fs ++ (['\x7d'] ++ rest)) :=
    bare_joined (fun f hm => (h f hm).field_bare (hf f hm)) hstop.bare
  rw [hs]
  simp only [List.append_assoc]
  apply choose_struct rfl
  rw [Grammar.struct, andThen_of_some (mark_append "struct" hopen),
    andThen_of_some (mark_append "\x7b" hbare),
    andThen_of_some (padded_of_some (fields_reads htype hf h hw rest) hstop.bare),
    andThen_of_some (literal_append ['\x7d'] rest)]
  rfl

/-- The results are read from behind the blank that sets them off. -/
theorem results_reads {ts : List Ty} (h : ∀ t ∈ ts, Writes type (text t) t)
    (hw : 2 ≤ ts.length → ∀ t ∈ ts, t.startsWithWord = false) {rest : List Char} (hr : Stops rest) :
    ∃ cs, blanks (resultsText text ts ++ rest) = some ((), cs) ∧
      optionalList (Grammar.results type) cs = some (ts, rest) := by
  match ts with
  | [] =>
    refine ⟨rest, blanks_of_bare hr.bare, optionalList_of_none ?_⟩
    rw [Grammar.results, orElse_of_none (tuple_none (hr.head_ne rfl))]
    exact andThen_of_none (htype rest hr) _
  | [t] =>
    have ht := h t List.mem_cons_self
    refine ⟨(text t).toList ++ rest, blanks_space (ht.bare rest), optionalList_of_some ?_⟩
    rw [Grammar.results, orElse_of_none (tuple_none (ht.head_ne rfl rest)),
      andThen_of_some (ht.reads rest hr)]
    rfl
  | t :: u :: ts =>
    have hread := tuple_reads htype h (hw (by simp)) rest
    refine ⟨_, ?_, optionalList_of_some (orElse_of_some hread)⟩
    simp only [resultsText, List.cons_append, List.append_assoc]
    exact blanks_space (bare_cons rfl)

theorem func {ps rs : List Ty} (hp : ∀ t ∈ ps, Writes type (text t) t)
    (hpw : ∀ t ∈ ps, t.startsWithWord = false) (hr : ∀ t ∈ rs, Writes type (text t) t)
    (hrw : 2 ≤ rs.length → ∀ t ∈ rs, t.startsWithWord = false) :
    Writes (alternatives type) (TypeText.func (ps.map text) (rs.map text)) (.func ps rs) := by
  have hs := toList_func text ps rs
  apply of_mark "func".toList '(' hs rfl ⟨rfl, rfl⟩ rfl
  · obtain ⟨cs, c, hcs, hc⟩ := closes_results hr
    exact ⟨_, c, by rw [hs, hcs, ← List.append_assoc, ← List.append_assoc, ← List.append_assoc], hc⟩
  intro rest hstop
  obtain ⟨cs, hblank, hresults⟩ := results_reads htype hr hrw hstop
  have hparams := tuple_reads htype hp hpw (resultsText text rs ++ rest)
  have hopen : Bare ("(".toList ++ (joined "," (fun t => (text t).toList) ps ++
      ([')'] ++ (resultsText text rs ++ rest)))) := bare_cons rfl
  rw [hs]
  simp only [List.append_assoc]
  apply choose_func rfl
  rw [Grammar.func, andThen_of_some (mark_append "func" hopen),
    andThen_of_some (padded_of_blanks hparams hblank), andThen_of_some hresults]
  rfl

end Lists

end Writes

end ReadGuard.Ty
