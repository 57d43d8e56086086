import Shunter.Foundation.Codec

/-!
# Streams of items

A reader that takes at least one byte for every item splits an input into the
items it holds and the rest at which it stops.  A loop that reads item by item
is then a fold over these items.
-/

namespace Foundation

namespace Reader

variable {ε α : Type}

/-- The items come off the input one after the other and leave `rest`. -/
inductive Takes (next : Reader ε α) : List UInt8 → List α → List UInt8 → Prop
  | nil (input : List UInt8) : Takes next input [] input
  | cons {input mid rest : List UInt8} {a : α} {items : List α}
      (hnext : next input = .ok (a, mid)) (htakes : Takes next mid items rest) :
      Takes next input (a :: items) rest

/-- The whole stream: what comes off the input, and the error it ends with. -/
structure Streams (next : Reader ε α) (input : List UInt8) (items : List α)
    (rest : List UInt8) (e : ε) : Prop where
  takes : Takes next input items rest
  stops : next rest = .error e

variable {next : Reader ε α} {input mid rest rest' : List UInt8} {items items' : List α} {e e' : ε}

theorem Takes.append (h : Takes next input items mid) (h' : Takes next mid items' rest) :
    Takes next input (items ++ items') rest := by
  induction h with
  | nil => exact h'
  | cons hnext _ ih => exact .cons hnext (ih h')

theorem Takes.imp {ε' : Type} {next' : Reader ε' α}
    (himp : ∀ input p, next input = .ok p → next' input = .ok p)
    (h : Takes next input items rest) : Takes next' input items rest := by
  induction h with
  | nil => exact .nil _
  | cons hnext _ ih => exact .cons (himp _ _ hnext) ih

theorem Streams.of_takes (h : Takes next input items mid) (hs : Streams next mid items' rest e) :
    Streams next input (items ++ items') rest e :=
  ⟨h.append hs.takes, hs.stops⟩

theorem Streams.unique (h : Streams next input items rest e)
    (h' : Streams next input items' rest' e') : items = items' ∧ rest = rest' ∧ e = e' := by
  obtain ⟨htakes, hstops⟩ := h
  induction htakes generalizing items' with
  | nil =>
    obtain ⟨htakes', hstops'⟩ := h'
    cases htakes' with
    | nil =>
      rw [hstops] at hstops'
      cases hstops'
      exact ⟨rfl, rfl, rfl⟩
    | cons hnext' _ =>
      rw [hstops] at hnext'
      cases hnext'
  | cons hnext _ ih =>
    obtain ⟨htakes', hstops'⟩ := h'
    cases htakes' with
    | nil =>
      rw [hnext] at hstops'
      cases hstops'
    | cons hnext' htakes' =>
      rw [hnext] at hnext'
      cases hnext'
      obtain ⟨rfl, hrest⟩ := ih ⟨htakes', hstops'⟩ hstops
      exact ⟨rfl, hrest⟩

/-! ## Readers that take something -/

def Consumes (next : Reader ε α) : Prop :=
  ∀ input a rest, next input = .ok (a, rest) → rest.length < input.length

theorem Consumes.length_le (hc : Consumes next) (h : Takes next input items rest) :
    rest.length + items.length ≤ input.length := by
  induction h with
  | nil => simp
  | cons hnext _ ih =>
    have := hc _ _ _ hnext
    rw [List.length_cons]
    omega

theorem Consumes.exists_streams (hc : Consumes next) (input : List UInt8) :
    ∃ items rest e, Streams next input items rest e := by
  generalize hn : input.length = n
  induction n using Nat.strong_induction_on generalizing input with
  | _ n ih =>
    cases hnext : next input with
    | error e => exact ⟨[], input, e, .nil _, hnext⟩
    | ok p =>
      obtain ⟨a, mid⟩ := p
      obtain ⟨items, rest, e, hs⟩ := ih mid.length (hn ▸ hc _ _ _ hnext) mid rfl
      exact ⟨a :: items, rest, e, .cons hnext hs.takes, hs.stops⟩

/-! ## Loops -/

section

variable {σ ω : Type}

/--
A loop over a stream.  `step` goes on with a new state or leaves the loop with
a result, `finish` turns the error that ends the stream into a result, and
`outOfFuel` is the result for a loop that was given too few rounds.
-/
def consume (next : Reader ε α) (step : σ → α → Except ω σ) (finish : σ → List UInt8 → ε → ω)
    (outOfFuel : ω) : Nat → σ → List UInt8 → ω
  | 0, _, _ => outOfFuel
  | fuel + 1, s, input =>
    match next input with
    | .error e => finish s input e
    | .ok (a, rest) =>
      match step s a with
      | .error w => w
      | .ok s => consume next step finish outOfFuel fuel s rest

variable {step : σ → α → Except ω σ} {finish : σ → List UInt8 → ε → ω}

theorem consume_eq {outOfFuel : ω} {fuel : Nat} (h : Streams next input items rest e)
    (hfuel : items.length < fuel) (s : σ) :
    consume next step finish outOfFuel fuel s input =
      match items.foldlM step s with
      | .error w => w
      | .ok s => finish s rest e := by
  obtain ⟨htakes, hstops⟩ := h
  induction htakes generalizing fuel s with
  | nil =>
    obtain ⟨fuel, rfl⟩ := Nat.exists_eq_add_of_lt hfuel
    simp [consume, hstops, pure, Except.pure]
  | cons hnext _ ih =>
    obtain ⟨fuel, rfl⟩ : ∃ n, fuel = n + 1 := ⟨fuel - 1, by omega⟩
    rw [consume, hnext, List.foldlM_cons]
    dsimp only
    cases hstep : step s _ with
    | error w => rfl
    | ok s' => exact ih (by simpa using hfuel) s' hstops

theorem consume_of_takes {outOfFuel w : ω} {fuel : Nat} (h : Takes next input items rest)
    (hfuel : items.length < fuel) {s : σ} (hleave : items.foldlM step s = .error w) :
    consume next step finish outOfFuel fuel s input = w := by
  induction h generalizing fuel s with
  | nil => cases hleave
  | cons hnext _ ih =>
    obtain ⟨fuel, rfl⟩ : ∃ n, fuel = n + 1 := ⟨fuel - 1, by omega⟩
    rw [consume, hnext]
    dsimp only
    rw [List.foldlM_cons] at hleave
    cases hstep : step s _ with
    | error w' =>
      rw [hstep] at hleave
      cases hleave
      rfl
    | ok s' =>
      rw [hstep] at hleave
      exact ih (by simpa using hfuel) hleave

end

end Reader

end Foundation
