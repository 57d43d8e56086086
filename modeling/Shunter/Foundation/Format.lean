import Shunter.Foundation.Codec

/-!
# Exact readers

A reader is exact for a grammar when it reads every value from its texts and
accepts nothing else.  It is sound when it also never fails with an error that
is marked as bad.  Both compose along the sequencing of readers.  Where a value
has one text, each part is a field of the value that comes out at the end.
-/

namespace Foundation.Reader

variable {ε α β : Type} {bad : ε → Prop} {f : α → Reader ε β} {e : ε}

theorem bind_error {r : Reader ε α} {x : List UInt8} (h : (r >>= f) x = .error e) :
    r x = .error e ∨ ∃ v y, r x = .ok (v, y) ∧ f v y = .error e := by
  rw [bind_apply] at h
  cases hr : r x with
  | error e' =>
    rw [hr] at h
    cases h
    exact .inl rfl
  | ok p =>
    rw [hr] at h
    exact .inr ⟨p.1, p.2, rfl, h⟩

/-! ## Grammars -/

/-- The reader accepts the texts that `G` relates to a value and nothing else. -/
structure Parses (bad : ε → Prop) (r : Reader ε α) (G : List UInt8 → α → Prop) : Prop where
  reads : ∀ t a, G t a → Reads r t a
  exact : ∀ x a rest, r x = .ok (a, rest) → ∃ t, G t a ∧ x = t ++ rest
  safe : ∀ x e, r x = .error e → ¬ bad e

variable {r : Reader ε α} {G : List UInt8 → α → Prop}

theorem Parses.congr {G' : List UInt8 → α → Prop} (h : Parses bad r G)
    (hG : ∀ t a, G t a ↔ G' t a) : Parses bad r G' := by
  rwa [← funext₂ fun t a => propext (hG t a)]

theorem parses_pure (b : β) : Parses bad (pure b : Reader ε β) fun t a => t = [] ∧ a = b where
  reads t a h := by
    rw [h.1, h.2]
    exact reads_pure b
  exact x a rest h := by
    cases h
    exact ⟨[], ⟨rfl, rfl⟩, rfl⟩
  safe x e h := by cases h

theorem parses_throw (he : ¬ bad e) : Parses bad (throw e : Reader ε α) fun _ _ => False where
  reads t a h := h.elim
  exact x a rest h := by cases h
  safe x e' h := by
    cases h
    exact he

theorem Parses.bind {H : α → List UInt8 → β → Prop} (h : Parses bad r G)
    (hf : ∀ t a, G t a → Parses bad (f a) (H a)) :
    Parses bad (r >>= f) fun t b => ∃ t₁ t₂ a, G t₁ a ∧ H a t₂ b ∧ t = t₁ ++ t₂ where
  reads t b hb := by
    obtain ⟨t₁, t₂, a, hG, hH, rfl⟩ := hb
    exact (h.reads t₁ a hG).bind ((hf t₁ a hG).reads t₂ b hH)
  exact x b rest hr := by
    obtain ⟨a, y, ha, hb⟩ := bind_ok hr
    obtain ⟨t₁, hG, rfl⟩ := h.exact x a y ha
    obtain ⟨t₂, hH, rfl⟩ := (hf t₁ a hG).exact y b rest hb
    exact ⟨t₁ ++ t₂, ⟨t₁, t₂, a, hG, hH, rfl⟩, (List.append_assoc ..).symm⟩
  safe x e hr := by
    obtain hr | ⟨a, y, ha, hr⟩ := bind_error hr
    · exact h.safe x e hr
    · obtain ⟨t₁, hG, -⟩ := h.exact x a y ha
      exact (hf t₁ a hG).safe y e hr

theorem Parses.map (h : Parses bad r G) (f : α → β) :
    Parses bad (r >>= fun a => pure (f a)) fun t b => ∃ a, G t a ∧ b = f a := by
  refine (h.bind fun _ a _ => parses_pure (f a)).congr fun t b => ?_
  constructor
  · rintro ⟨t₁, _, a, hG, ⟨rfl, rfl⟩, rfl⟩
    exact ⟨a, by rwa [List.append_nil], rfl⟩
  · rintro ⟨a, hG, rfl⟩
    exact ⟨t, [], a, hG, ⟨rfl, rfl⟩, (List.append_nil t).symm⟩

theorem Parses.many (h : Parses bad r G) (n : Nat) :
    Parses bad (many r n) fun t l => l.length = n ∧ ∃ ts, List.Forall₂ G ts l ∧ t = ts.flatten := by
  induction n with
  | zero =>
    refine (parses_pure []).congr fun t l => ?_
    constructor
    · rintro ⟨rfl, rfl⟩
      exact ⟨rfl, [], .nil, rfl⟩
    · rintro ⟨hlen, ts, hts, rfl⟩
      obtain rfl := List.length_eq_zero_iff.mp hlen
      cases hts
      exact ⟨rfl, rfl⟩
  | succ n ih =>
    refine (h.bind fun _ a _ => ih.map (a :: ·)).congr fun t l => ?_
    constructor
    · rintro ⟨t₁, _, a, hG, ⟨l, ⟨hlen, ts, hts, rfl⟩, rfl⟩, rfl⟩
      exact ⟨by rw [List.length_cons, hlen], t₁ :: ts, .cons hG hts, rfl⟩
    · rintro ⟨hlen, _, @⟨⟩ | @⟨t₁, a, ts, l, hG, hts⟩, rfl⟩
      · cases hlen
      · exact ⟨t₁, ts.flatten, a, hG, ⟨l, ⟨by simpa using hlen, ts, hts, rfl⟩, rfl⟩, rfl⟩

/-! ## Texts -/

structure Codes (bad : ε → Prop) (r : Reader ε α) (text : α → List UInt8) (Valid : α → Prop) :
    Prop where
  reads : ∀ a, Valid a → Reads r (text a) a
  exact : ∀ x a rest, r x = .ok (a, rest) → Valid a ∧ x = text a ++ rest
  safe : ∀ x e, r x = .error e → ¬ bad e

variable {text : α → List UInt8} {Valid : α → Prop}

theorem codes_iff_parses :
    Codes bad r text Valid ↔ Parses bad r fun t a => Valid a ∧ t = text a := by
  constructor
  · intro h
    refine ⟨?_, fun x a rest hr => ?_, h.safe⟩
    · rintro _ a ⟨hvalid, rfl⟩
      exact h.reads a hvalid
    · obtain ⟨hvalid, hx⟩ := h.exact x a rest hr
      exact ⟨text a, ⟨hvalid, rfl⟩, hx⟩
  · intro h
    refine ⟨fun a hvalid => h.reads _ a ⟨hvalid, rfl⟩, fun x a rest hr => ?_, h.safe⟩
    obtain ⟨_, ⟨hvalid, rfl⟩, hx⟩ := h.exact x a rest hr
    exact ⟨hvalid, hx⟩

theorem Parses.codes (h : Parses bad r G) (hG : ∀ a t, G t a ↔ Valid a ∧ t = text a) :
    Codes bad r text Valid :=
  codes_iff_parses.mpr (h.congr fun t a => hG a t)

theorem codes_pure (b : β) : Codes bad (pure b : Reader ε β) (fun _ => []) (· = b) :=
  codes_iff_parses.mpr ((parses_pure b).congr fun _ _ => and_comm)

theorem codes_throw (he : ¬ bad e) (text : α → List UInt8) :
    Codes bad (throw e : Reader ε α) text fun _ => False :=
  codes_iff_parses.mpr ((parses_throw he).congr (by simp))

section

variable (h : Codes bad r text Valid)
include h

theorem Codes.congr {text' : α → List UInt8} {Valid' : α → Prop}
    (hvalid : ∀ a, Valid a ↔ Valid' a) (htext : ∀ a, Valid a → text a = text' a) :
    Codes bad r text' Valid' := by
  refine codes_iff_parses.mpr ((codes_iff_parses.mp h).congr fun t a => ?_)
  rw [← hvalid]
  exact and_congr_right fun ha => by rw [htext a ha]

theorem Codes.bind {H : α → List UInt8 → β → Prop} (hf : ∀ a, Parses bad (f a) (H a)) :
    Parses bad (r >>= f) fun t b => ∃ a, Valid a ∧ ∃ t', H a t' b ∧ t = text a ++ t' := by
  refine ((codes_iff_parses.mp h).bind fun _ a _ => hf a).congr fun t b => ?_
  constructor
  · rintro ⟨_, t', a, ⟨hvalid, rfl⟩, hH, rfl⟩
    exact ⟨a, hvalid, t', hH, rfl⟩
  · rintro ⟨a, hvalid, t', hH, rfl⟩
    exact ⟨text a, t', a, ⟨hvalid, rfl⟩, hH, rfl⟩

theorem Codes.field {more : β → List UInt8} {More : α → β → Prop} (field : β → α)
    (hf : ∀ a, Valid a → Codes bad (f a) more (More a)) (hfield : ∀ a b, More a b → field b = a) :
    Codes bad (r >>= f) (fun b => text (field b) ++ more b)
      (fun b => Valid (field b) ∧ More (field b) b) := by
  have hbind := (codes_iff_parses.mp h).bind fun _ a ha => codes_iff_parses.mp (hf a ha.1)
  refine codes_iff_parses.mpr (hbind.congr fun t b => ?_)
  constructor
  · rintro ⟨_, _, a, ⟨hvalid, rfl⟩, ⟨hmore, rfl⟩, rfl⟩
    obtain rfl := hfield a b hmore
    exact ⟨⟨hvalid, hmore⟩, rfl⟩
  · rintro ⟨⟨hvalid, hmore⟩, rfl⟩
    exact ⟨_, _, field b, ⟨hvalid, rfl⟩, ⟨hmore, rfl⟩, rfl⟩

theorem Codes.map (f : α → β) (text' : β → List UInt8) (htext : ∀ a, text' (f a) = text a) :
    Codes bad (r >>= fun a => pure (f a)) text' fun b => ∃ a, Valid a ∧ b = f a := by
  refine codes_iff_parses.mpr (((codes_iff_parses.mp h).map f).congr fun t b => ?_)
  constructor
  · rintro ⟨a, ⟨hvalid, rfl⟩, rfl⟩
    exact ⟨⟨a, hvalid, rfl⟩, (htext a).symm⟩
  · rintro ⟨⟨a, hvalid, rfl⟩, rfl⟩
    exact ⟨a, ⟨hvalid, htext a⟩, rfl⟩

theorem Codes.check {Passes : α → Prop} {f : α → Reader ε α}
    (hpass : ∀ a y, Passes a → f a y = .ok (a, y))
    (hfail : ∀ a y, ¬ Passes a → ∃ e, f a y = .error e ∧ ¬ bad e) :
    Codes bad (r >>= f) text (fun a => Valid a ∧ Passes a) := by
  have hf : ∀ a, Codes bad (f a) (fun _ => []) fun b => b = a ∧ Passes b := by
    intro a
    by_cases hp : Passes a
    · rw [show f a = pure a from funext fun y => hpass a y hp]
      exact (codes_pure a).congr (by grind) fun _ _ => rfl
    · refine ⟨by grind, fun x b rest hr => ?_, fun x e hr => ?_⟩
      · obtain ⟨e, he, -⟩ := hfail a x hp
        rw [he] at hr
        cases hr
      · obtain ⟨e', he, hbad⟩ := hfail a x hp
        rw [he] at hr
        cases hr
        exact hbad
  have hfield := h.field id (fun a _ => hf a) fun a b hb => hb.1
  exact hfield.congr (by simp) fun a _ => List.append_nil _

end

/-- A check of what is left to read before the reader starts. -/
theorem Codes.guard {short : List UInt8 → Prop} [DecidablePred short] {e : List UInt8 → ε}
    (h : Codes (fun _ => False) r text Valid) (he : ∀ x, ¬ bad (e x))
    (hlong : ∀ a rest, Valid a → ¬ short (text a ++ rest))
    (hsafe : ∀ x e, ¬ short x → r x = .error e → ¬ bad e) :
    Codes bad (do let x ← get; if short x then throw (e x) else r) text Valid := by
  have happly : ∀ x, (do let x ← get; if short x then throw (e x) else r : Reader ε α) x =
      if short x then .error (e x) else r x := by
    intro x
    change (if short x then throw (e x) else r : Reader ε α) x = _
    split <;> rfl
  refine ⟨fun a ha rest => ?_, fun x a rest hr => ?_, fun x e' hr => ?_⟩
  · rw [happly, if_neg (hlong a rest ha)]
    exact h.reads a ha rest
  · rw [happly] at hr
    split at hr
    · cases hr
    · exact h.exact x a rest hr
  · rw [happly] at hr
    split at hr
    · cases hr
      exact he x
    · next hx => exact hsafe x e' hx hr

theorem Codes.many (h : Codes bad r text Valid) (n : Nat) :
    Codes bad (many r n) (·.flatMap text) (fun l => l.length = n ∧ ∀ a ∈ l, Valid a) := by
  refine codes_iff_parses.mpr (((codes_iff_parses.mp h).many n).congr fun t l => ?_)
  rw [and_assoc]
  refine and_congr Iff.rfl ⟨?_, ?_⟩
  · rintro ⟨ts, hts, rfl⟩
    induction hts with
    | nil => simp
    | cons ha _ ih =>
        exact ⟨List.forall_mem_cons.mpr ⟨ha.1, ih.1⟩, by simp [ha.2, ih.2]⟩
  · rintro ⟨hl, rfl⟩
    refine ⟨l.map text, ?_, (List.flatMap_def ..)⟩
    rw [List.forall₂_map_left_iff, List.forall₂_same]
    exact fun a ha => ⟨hl a ha, rfl⟩

theorem Codes.rest_eq (h : Codes bad r text Valid) {x more rest : List UInt8} {a b : α}
    (hx : r x = .ok (a, [])) (hxm : r (x ++ more) = .ok (b, rest)) : a = b ∧ more = rest := by
  obtain ⟨hvalid, rfl⟩ := h.exact x a [] hx
  have hread := h.reads a hvalid more
  rw [List.append_nil] at hxm
  rw [hread] at hxm
  cases hxm
  exact ⟨rfl, rfl⟩

end Foundation.Reader
