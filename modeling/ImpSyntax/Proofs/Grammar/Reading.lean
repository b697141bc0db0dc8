import ImpSyntax.Proofs.Grammar.Rule

/-!
# ImpSyntax.Proofs.Grammar.Reading

What it means that a rule reads a language, with one token of lookahead, and how this carries over
from the parts of a rule to the whole.

* `Phrase`       — a language: tokens of which kinds stand for which values.
* `Reading`      — a run of a rule: the tokens taken are a phrase with the value found, or they can
  be completed to one; and neither do their places matter, nor what is behind them but for the kind
  of the first token.
* `Reads.bind`   — one rule behind another, `Reads.expect_bind` and `Reads.cons` a token in front.
* `Ensures.bind` — what holds of a value and the tokens behind it.
* `Takes.bind`   — a rule that is known to take some tokens, whatever fits behind them.
-/

namespace ImpSyntax
namespace Grammar

variable {α β : Type}

abbrev Phrase (α : Type) := List TokenKind → α → Prop

namespace Phrase

/-- No tokens, for a value that is known. -/
def done (v : α) : Phrase α := fun ks w => ks = [] ∧ w = v

/-- A token in front of a phrase. -/
def after (k : TokenKind) (L : Phrase α) : Phrase α := fun ks v => ∃ ks', ks = k :: ks' ∧ L ks' v

/-- A phrase behind another one, whose value it may depend on. -/
def seq (L : Phrase α) (M : α → Phrase β) : Phrase β := fun ks w =>
  ∃ front v behind, ks = front ++ behind ∧ L front v ∧ M v behind w

/-- The language has a phrase. -/
def Inhabited (L : Phrase α) : Prop := ∃ ks v, L ks v

theorem inhabited_done (v : α) : (done v).Inhabited := ⟨[], v, rfl, rfl⟩

theorem Inhabited.after {L : Phrase α} (h : L.Inhabited) (k : TokenKind) :
    (after k L).Inhabited := by
  obtain ⟨ks, v, hL⟩ := h
  exact ⟨k :: ks, v, ks, rfl, hL⟩

theorem Inhabited.seq {L : Phrase α} {M : α → Phrase β} (hL : L.Inhabited)
    (hM : ∀ v, (M v).Inhabited) : (seq L M).Inhabited := by
  obtain ⟨front, v, hfront⟩ := hL
  obtain ⟨behind, w, hbehind⟩ := hM v
  exact ⟨front ++ behind, w, front, v, behind, rfl, hfront, hbehind⟩

end Phrase

open Phrase (done after seq)

/-- The run of a rule on `ts` takes the tokens `taken`. -/
structure Reading (L : Phrase α) (f : Rule α) (ts taken : List Token) : Prop where
  split : ts = taken ++ (f ts).rest
  value : ∀ v, (f ts).result = .ok v → L (kinds taken) v
  viable : ∀ expected, (f ts).result = .error expected → ∃ more v, L (kinds taken ++ more) v
  lookahead : ∀ taken' rest, kinds taken' = kinds taken →
    (kinds rest).head? = (kinds (f ts).rest).head? → f (taken' ++ rest) = ⟨(f ts).result, rest⟩

/-- The rule reads phrases of the language off the front of `ts`. -/
def Reads (L : Phrase α) (f : Rule α) (ts : List Token) : Prop :=
  ∃ taken, Reading L f ts taken

theorem head?_append_congr {taken taken' rest rest' : List Token}
    (htaken : kinds taken' = kinds taken) (h : (kinds rest').head? = (kinds rest).head?) :
    (kinds (taken' ++ rest')).head? = (kinds (taken ++ rest)).head? := by
  simp only [kinds, List.map_append, List.head?_append] at htaken h ⊢
  rw [htaken, h]

namespace Reads

variable {L L' : Phrase α} {M : α → Phrase β} {f f' : Rule α} {g : α → Rule β} {ts : List Token}

theorem mono (h : Reads L f ts) (hL : ∀ ks v, L ks v → L' ks v) : Reads L' f ts := by
  obtain ⟨taken, hf⟩ := h
  refine ⟨taken, hf.split, fun v hv => hL _ _ (hf.value v hv), fun expected he => ?_, hf.lookahead⟩
  obtain ⟨more, v, hmore⟩ := hf.viable expected he
  exact ⟨more, v, hL _ _ hmore⟩

/-- Rules that agree on all tokens with a first one of the same kind read alike. -/
theorem congr (h : Reads L f ts)
    (heq : ∀ rest, (kinds rest).head? = (kinds ts).head? → f' rest = f rest) : Reads L f' ts := by
  obtain ⟨taken, hf⟩ := h
  have hts := heq ts rfl
  refine ⟨taken, ?_, ?_, ?_, ?_⟩
  · rw [hts]; exact hf.split
  · rw [hts]; exact hf.value
  · rw [hts]; exact hf.viable
  · intro taken' rest htaken hrest
    rw [hts] at hrest ⊢
    have hhead : (kinds (taken' ++ rest)).head? = (kinds ts).head? := by
      rw [head?_append_congr htaken hrest, ← hf.split]
    rw [heq _ hhead]
    exact hf.lookahead taken' rest htaken hrest

theorem stop {v : α}
    (h : ∀ rest, (kinds rest).head? = (kinds ts).head? → f rest = ⟨.ok v, rest⟩) :
    Reads (done v) f ts := by
  have hts := h ts rfl
  refine ⟨[], ?_, ?_, ?_, ?_⟩
  · rw [hts]; rfl
  · intro w hw
    rw [hts] at hw
    cases hw
    exact ⟨rfl, rfl⟩
  · intro expected he
    rw [hts] at he
    cases he
  · intro taken rest htaken hrest
    rw [hts] at hrest ⊢
    rw [List.map_eq_nil_iff.1 htaken]
    exact h rest hrest

theorem pure (v : α) (ts : List Token) : Reads (done v) (Rule.pure v) ts :=
  stop fun _ _ => rfl

theorem fail {expected : Expected} (hL : L.Inhabited)
    (h : ∀ rest, (kinds rest).head? = (kinds ts).head? → f rest = ⟨.error expected, rest⟩) :
    Reads L f ts := by
  have hts := h ts rfl
  refine ⟨[], ?_, ?_, fun _ _ => hL, ?_⟩
  · rw [hts]; rfl
  · intro v hv
    rw [hts] at hv
    cases hv
  · intro taken rest htaken hrest
    rw [hts] at hrest ⊢
    rw [List.map_eq_nil_iff.1 htaken]
    exact h rest hrest

theorem cons {k : TokenKind} (h : Reads L f ts)
    (heq : ∀ place rest, f' (⟨k, place⟩ :: rest) = f rest) (place : Location) :
    Reads (after k L) f' (⟨k, place⟩ :: ts) := by
  obtain ⟨taken, hf⟩ := h
  refine ⟨⟨k, place⟩ :: taken, ?_, ?_, ?_, ?_⟩
  · rw [heq, List.cons_append, ← hf.split]
  · intro v hv
    rw [heq] at hv
    exact ⟨kinds taken, rfl, hf.value v hv⟩
  · intro expected he
    rw [heq] at he
    obtain ⟨more, v, hmore⟩ := hf.viable expected he
    exact ⟨more, v, kinds taken ++ more, rfl, hmore⟩
  · intro taken' rest htaken hrest
    obtain ⟨⟨_, place'⟩, behind, rfl, rfl, hbehind⟩ := List.map_eq_cons_iff.1 htaken
    rw [heq] at hrest ⊢
    rw [List.cons_append, heq]
    exact hf.lookahead behind rest hbehind hrest

theorem bind (hf : Reads L f ts) (hM : ∀ v, (M v).Inhabited)
    (hg : ∀ v, (f ts).result = .ok v → Reads (M v) (g v) (f ts).rest) :
    Reads (seq L M) (f.bind g) ts := by
  obtain ⟨taken, hf⟩ := hf
  cases hres : (f ts).result with
  | ok v =>
    obtain ⟨taken₂, hg⟩ := hg v hres
    have hts := Rule.bind_of_ok g hres
    have hkinds : kinds (taken ++ taken₂) = kinds taken ++ kinds taken₂ := List.map_append
    refine ⟨taken ++ taken₂, ?_, ?_, ?_, ?_⟩
    · rw [hts, List.append_assoc, ← hg.split, ← hf.split]
    · intro w hw
      rw [hts] at hw
      exact ⟨kinds taken, v, kinds taken₂, hkinds, hf.value v hres, hg.value w hw⟩
    · intro expected he
      rw [hts] at he
      obtain ⟨more, w, hmore⟩ := hg.viable expected he
      exact ⟨more, w, kinds taken, v, kinds taken₂ ++ more,
        by rw [hkinds, List.append_assoc], hf.value v hres, hmore⟩
    · intro taken' rest htaken hrest
      rw [hts] at hrest ⊢
      rw [hkinds] at htaken
      obtain ⟨front, behind, rfl, hfront, hbehind⟩ := List.map_eq_append_iff.1 htaken
      have hhead : (kinds (behind ++ rest)).head? = (kinds (f ts).rest).head? := by
        rw [head?_append_congr hbehind hrest, ← hg.split]
      have hfound := hf.lookahead front (behind ++ rest) hfront hhead
      rw [hres] at hfound
      rw [List.append_assoc, Rule.bind_ok hfound]
      exact hg.lookahead behind rest hbehind hrest
  | error expected =>
    have hts := Rule.bind_of_error g hres
    refine ⟨taken, ?_, ?_, ?_, ?_⟩
    · rw [hts]; exact hf.split
    · intro w hw
      rw [hts] at hw
      cases hw
    · intro _ _
      obtain ⟨more, v, hmore⟩ := hf.viable expected hres
      obtain ⟨behind, w, hbehind⟩ := hM v
      exact ⟨more ++ behind, w, kinds taken ++ more, v, behind, by rw [List.append_assoc], hmore,
        hbehind⟩
    · intro taken' rest htaken hrest
      rw [hts] at hrest ⊢
      have hfound := hf.lookahead taken' rest htaken hrest
      rw [hres] at hfound
      exact Rule.bind_error hfound

theorem expect_bind (k : TokenKind) (place : Place) (hL : L.Inhabited)
    (h : ∀ rest, Reads L f rest) (ts : List Token) :
    Reads (after k L) ((expectRule k place).bind fun _ => f) ts := by
  by_cases hts : (kinds ts).head? = some k
  · obtain ⟨location, rest, rfl⟩ := exists_of_head?_kinds hts
    exact (h rest).cons (fun location rest => Rule.bind_ok (expectRule_cons k place location rest))
      location
  · apply fail (hL.after k)
    intro rest hrest
    exact Rule.bind_error (expectRule_of_ne place (hrest ▸ hts))

theorem expect_pure (k : TokenKind) (place : Place) (v : α) (ts : List Token) :
    Reads (after k (done v)) ((expectRule k place).bind fun _ => Rule.pure v) ts :=
  expect_bind k place (Phrase.inhabited_done v) (pure v) ts

end Reads

/-! ## Conditions on what comes behind -/

/-- A value that the rule finds fits to the tokens behind it. -/
def Ensures (P : α → List TokenKind → Prop) (f : Rule α) (ts : List Token) : Prop :=
  ∀ v, (f ts).result = .ok v → P v (kinds (f ts).rest)

theorem Ensures.of_eq {P : α → List TokenKind → Prop} {f : Rule α} {ts rest : List Token}
    {v : α} (h : f ts = ⟨.ok v, rest⟩) (hP : P v (kinds rest)) : Ensures P f ts := by
  intro w hw
  rw [h] at hw ⊢
  cases hw
  exact hP

theorem Ensures.pure {P : α → List TokenKind → Prop} {v : α} {ts : List Token}
    (h : P v (kinds ts)) : Ensures P (Rule.pure v) ts := Ensures.of_eq rfl h

theorem Ensures.cons {P : α → List TokenKind → Prop} {f f' : Rule α} {t : Token}
    {ts : List Token} (h : Ensures P f ts) (heq : f' (t :: ts) = f ts) :
    Ensures P f' (t :: ts) := by
  intro v hv
  rw [heq] at hv ⊢
  exact h v hv

theorem Ensures.bind {P : β → List TokenKind → Prop} {f : Rule α} {g : α → Rule β}
    {ts : List Token}
    (hg : ∀ v, (f ts).result = .ok v → Ensures P (g v) (f ts).rest) :
    Ensures P (f.bind g) ts := by
  intro w hw
  cases hres : (f ts).result with
  | ok v =>
    have hts := Rule.bind_of_ok g hres
    rw [hts] at hw ⊢
    exact hg v hres w hw
  | error expected =>
    have hts := Rule.bind_of_error g hres
    rw [hts] at hw
    cases hw

/-! ## Rules on tokens that are known -/

/-- On tokens of the kinds `ks`, with kinds behind them that satisfy `P`, the rule takes these
tokens and finds `v`. -/
def Takes (f : Rule α) (P : List TokenKind → Prop) (ks : List TokenKind) (v : α) : Prop :=
  ∀ taken rest, kinds taken = ks → P (kinds rest) → f (taken ++ rest) = ⟨.ok v, rest⟩

namespace Takes

variable {f f' : Rule α} {P Q : List TokenKind → Prop} {k : TokenKind}
  {ks ks' : List TokenKind} {v : α} {w : β}

theorem stop (h : ∀ rest, P (kinds rest) → f rest = ⟨.ok v, rest⟩) : Takes f P [] v := by
  intro taken rest htaken hrest
  rw [List.map_eq_nil_iff.1 htaken]
  exact h rest hrest

theorem pure (v : α) (P : List TokenKind → Prop) : Takes (Rule.pure v) P [] v := stop fun _ _ => rfl

theorem cons (h : Takes f P ks v) (heq : ∀ place rest, f' (⟨k, place⟩ :: rest) = f rest) :
    Takes f' P (k :: ks) v := by
  intro taken rest htaken hrest
  obtain ⟨⟨_, place⟩, behind, rfl, rfl, hbehind⟩ := List.map_eq_cons_iff.1 htaken
  rw [List.cons_append, heq]
  exact h behind rest hbehind hrest

theorem bind (hf : Takes f P ks v) (g : α → Rule β) (hg : Takes (g v) Q ks' w)
    (hP : ∀ rest, Q rest → P (ks' ++ rest)) : Takes (f.bind g) Q (ks ++ ks') w := by
  intro taken rest htaken hrest
  obtain ⟨front, behind, rfl, hfront, rfl⟩ := List.map_eq_append_iff.1 htaken
  have hbehind := hP (kinds rest) hrest
  rw [← List.map_append] at hbehind
  rw [List.append_assoc, Rule.bind_ok (hf front _ hfront hbehind)]
  exact hg behind rest rfl hrest

theorem bind_pure (hf : Takes f P ks v) (h : α → β) :
    Takes (f.bind fun v => Rule.pure (h v)) P ks (h v) := by
  intro taken rest htaken hrest
  rw [Rule.bind_ok (hf taken rest htaken hrest)]
  rfl

theorem expect (k : TokenKind) (place : Place) (h : Takes f P ks v) :
    Takes ((expectRule k place).bind fun _ => f) P (k :: ks) v :=
  h.cons fun location rest => Rule.bind_ok (expectRule_cons k place location rest)

end Takes

end Grammar
end ImpSyntax
