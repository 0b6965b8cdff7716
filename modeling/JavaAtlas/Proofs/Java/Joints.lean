import JavaAtlas.Java.Reading
import JavaAtlas.Proofs.Java.Alike

/-!
# Joints between tokens

Reading asks of most tokens only what they are.  At a few joints it also asks whether the
token touches the one before: two greater-than signs in a row are one operator only if
nothing stands between them, but close two lists of type arguments in any case.  Two texts
consist of the same tokens if their bare tokens are the same and touch alike at the joints
that are asked about.  Such texts are read alike.

Main results:

- Theorem `run_alike`: a rule does the same with the same tokens, step by step.
- Theorem `read_alike`: a text with the same tokens as one that is read completely is read
  completely too, and the trees of both are alike.
-/

namespace JavaAtlas.Java

open JavaAtlas.Java.Tree

/-! ## The joints that are asked about -/

/-- The terminal asks whether the first token touches the one before. -/
def Terminal.asks (t : Terminal) (ts : List Token) : Bool :=
  match t, ts with
  | .touching m, tok :: _ => (tok.shape == .mark || tok.shape == .word) && tok.text == m
  | _, _ => false

/-- The joints that evaluating a rule asks about.  A joint is given by the number of tokens
behind it. -/
def askedJoints {σ : Type} (g : σ → Rule σ) :
    Nat → Rule σ → Bool → List Tree → List Token → List Nat
  | 0, _, _, _, _ => []
  | _ + 1, .token t, _, _, ts => if t.asks ts then [ts.length] else []
  | _ + 1, .nothing, _, _, _ => []
  | n + 1, .both a b, moved, built, ts =>
    askedJoints g n a moved built ts ++
      match run g n a moved built ts with
      | .matched moved' built' rest => askedJoints g n b moved' built' rest
      | _ => []
  | n + 1, .either a b, moved, built, ts =>
    askedJoints g n a false built ts ++
      match run g n a false built ts with
      | .declined _ => askedJoints g n b moved built ts
      | _ => []
  | n + 1, .many a, _, built, ts =>
    askedJoints g n a false built ts ++
      match run g n a false built ts with
      | .matched true built' rest => askedJoints g n (.many a) true built' rest
      | _ => []
  | n + 1, .node _ a, moved, _, ts => askedJoints g n a moved [] ts
  | n + 1, .symbol s, moved, built, ts => askedJoints g n (g s) moved built ts
  | n + 1, .attempt a, _, built, ts => askedJoints g n a false built ts
  | n + 1, .ahead a, _, _, ts => askedJoints g n a false [] ts
  | n + 1, .notAhead a, _, _, ts => askedJoints g n a false [] ts

/-- The joints that reading the text asks about. -/
def jointsOf (source : String) : List Nat :=
  let ts := scan source
  askedJoints Grammar.table (depthFor ts.length) (.symbol .program) false [] ts

/-- The tokens are the same, and those at the joints touch the ones before them alike. -/
def SameTokens (joints : List Nat) : List Token → List Token → Prop
  | [], [] => True
  | a :: as, b :: bs =>
    a.bare = b.bare ∧ ((a :: as).length ∈ joints → a.touching = b.touching) ∧
      SameTokens joints as bs
  | _, _ => False

instance decidableSameTokens (joints : List Nat) :
    ∀ as bs : List Token, Decidable (SameTokens joints as bs)
  | [], [] => inferInstanceAs (Decidable True)
  | _ :: as, _ :: bs =>
    have := decidableSameTokens joints as bs
    inferInstanceAs (Decidable (_ ∧ _ ∧ _))
  | [], _ :: _ => inferInstanceAs (Decidable False)
  | _ :: _, [] => inferInstanceAs (Decidable False)

theorem SameTokens.length_eq {joints : List Nat} {as bs : List Token}
    (h : SameTokens joints as bs) : as.length = bs.length := by
  induction as generalizing bs with
  | nil =>
      cases bs with
      | nil => rfl
      | cons b bs => exact h.elim
  | cons a as ih =>
      cases bs with
      | nil => exact h.elim
      | cons b bs => rw [List.length_cons, List.length_cons, ih h.2.2]

/-- The texts consist of the same tokens: only their layout differs. -/
def SameCode (source source' : String) : Prop :=
  SameTokens (jointsOf source) (scan source) (scan source')

instance (source source' : String) : Decidable (SameCode source source') :=
  inferInstanceAs (Decidable (SameTokens _ _ _))

/-! ## Reading the same tokens -/

/-- Two evaluations end alike: with trees of the same shape and the same tokens left, or
both without a match. -/
inductive Outcome.Alike (joints : List Nat) : Outcome → Outcome → Prop
  | matched (moved : Bool) {built built' : List Tree} {rest rest' : List Token}
      (hbuilt : List.Forall₂ Tree.SameShape built built')
      (hrest : SameTokens joints rest rest') :
      Alike joints (.matched moved built rest) (.matched moved built' rest')
  | declined (f f' : Fault) : Alike joints (.declined f) (.declined f')
  | broken (f f' : Fault) : Alike joints (.broken f) (.broken f')

theorem Outcome.alike_refused {joints : List Nat} (moved : Bool) (f f' : Fault) :
    Outcome.Alike joints (.refused moved f) (.refused moved f') := by
  cases moved with
  | false => exact .declined f f'
  | true => exact .broken f f'

/-- A terminal takes both tokens or neither. -/
theorem accepts_eq {joints : List Nat} {a b : Token} {as bs : List Token} {t : Terminal}
    (h : SameTokens joints (a :: as) (b :: bs))
    (hasks : t.asks (a :: as) = true → (a :: as).length ∈ joints) :
    t.accepts a = t.accepts b := by
  obtain ⟨hbare, htouching, -⟩ := h
  obtain ⟨hshape, htext⟩ := Token.bare_eq_iff.mp hbare
  cases t with
  | touching m =>
      simp only [Terminal.accepts, ← hshape, ← htext]
      by_cases hasked : ((a.shape == .mark || a.shape == .word) && a.text == m) = true
      case pos => rw [htouching (hasks hasked)]
      case neg => rw [Bool.eq_false_iff.mpr hasked, Bool.false_and, Bool.false_and]
  | word w => simp only [Terminal.accepts, hshape, htext]
  | name reserved => simp only [Terminal.accepts, hshape, htext]
  | mark m => simp only [Terminal.accepts, hshape, htext]
  | shape s => simp only [Terminal.accepts, hshape]
  | other spellings => simp only [Terminal.accepts, hshape, htext]

section Run

variable {σ : Type} {g : σ → Rule σ} {joints : List Nat}

/-- A rule does the same with the same tokens, if they touch alike at the joints that the
rule asks about. -/
theorem run_alike {n : Nat} {r : Rule σ} {moved : Bool} {built built' : List Tree}
    {ts us : List Token} (hjoints : ∀ j ∈ askedJoints g n r moved built ts, j ∈ joints)
    (hbuilt : List.Forall₂ Tree.SameShape built built') (hts : SameTokens joints ts us) :
    Outcome.Alike joints (run g n r moved built ts) (run g n r moved built' us) := by
  induction n generalizing r moved built built' ts us with
  | zero => exact .broken _ _
  | succ n ih =>
      cases r with
      | nothing => exact .matched moved hbuilt hts
      | token t =>
          cases ts with
          | nil =>
              cases us with
              | nil => exact Outcome.alike_refused moved _ _
              | cons u us => exact hts.elim
          | cons a as =>
              cases us with
              | nil => exact hts.elim
              | cons b bs =>
                  have haccepts : t.accepts a = t.accepts b := by
                    refine accepts_eq hts fun hasks => hjoints _ ?_
                    simp [askedJoints, hasks]
                  simp only [run, haccepts]
                  split
                  · exact .matched true (.cons (by simpa [Tree.Alike] using hts.1) hbuilt) hts.2.2
                  · exact Outcome.alike_refused moved _ _
      | both a b =>
          simp only [askedJoints, List.forall_mem_append] at hjoints
          have ha := ih hjoints.1 hbuilt hts
          simp only [run]
          generalize run g n a moved built ts = o at ha hjoints ⊢
          generalize run g n a moved built' us = o' at ha ⊢
          cases ha with
          | matched moved' hb hrest => exact ih hjoints.2 hb hrest
          | declined f f' => exact .declined f f'
          | broken f f' => exact .broken f f'
      | either a b =>
          simp only [askedJoints, List.forall_mem_append] at hjoints
          have ha := ih hjoints.1 hbuilt hts
          simp only [run]
          generalize run g n a false built ts = o at ha hjoints ⊢
          generalize run g n a false built' us = o' at ha ⊢
          cases ha with
          | matched moved' hb hrest => exact .matched _ hb hrest
          | declined f f' => exact ih hjoints.2 hbuilt hts
          | broken f f' => exact .broken f f'
      | many a =>
          simp only [askedJoints, List.forall_mem_append] at hjoints
          have ha := ih hjoints.1 hbuilt hts
          simp only [run]
          generalize run g n a false built ts = o at ha hjoints ⊢
          generalize run g n a false built' us = o' at ha ⊢
          cases ha with
          | matched moved' hb hrest =>
              cases moved' with
              | true => exact ih hjoints.2 hb hrest
              | false => exact .matched moved hbuilt hts
          | declined f f' => exact .matched moved hbuilt hts
          | broken f f' => exact .broken f f'
      | node k a =>
          have ha := ih hjoints (.nil : List.Forall₂ Tree.SameShape [] []) hts
          simp only [run]
          generalize run g n a moved [] ts = o at ha ⊢
          generalize run g n a moved [] us = o' at ha ⊢
          cases ha with
          | matched moved' hb hrest =>
              have hinside := List.forall₂_reverse_iff.mpr hb
              exact .matched moved' (.cons (alike_node trivial hinside) hbuilt) hrest
          | declined f f' => exact .declined f f'
          | broken f f' => exact .broken _ _
      | symbol s => exact ih hjoints hbuilt hts
      | attempt a =>
          have ha := ih hjoints hbuilt hts
          simp only [run]
          generalize run g n a false built ts = o at ha ⊢
          generalize run g n a false built' us = o' at ha ⊢
          cases ha with
          | matched moved' hb hrest => exact .matched _ hb hrest
          | declined f f' => exact Outcome.alike_refused moved _ _
          | broken f f' => exact Outcome.alike_refused moved _ _
      | ahead a =>
          have ha := ih hjoints (.nil : List.Forall₂ Tree.SameShape [] []) hts
          simp only [run]
          generalize run g n a false [] ts = o at ha ⊢
          generalize run g n a false [] us = o' at ha ⊢
          cases ha with
          | matched moved' hb hrest => exact .matched moved hbuilt hts
          | declined f f' => exact Outcome.alike_refused moved _ _
          | broken f f' => exact Outcome.alike_refused moved _ _
      | notAhead a =>
          have ha := ih hjoints (.nil : List.Forall₂ Tree.SameShape [] []) hts
          simp only [run]
          generalize run g n a false [] ts = o at ha ⊢
          generalize run g n a false [] us = o' at ha ⊢
          cases ha with
          | matched moved' hb hrest => exact Outcome.alike_refused moved _ _
          | declined f f' => exact .matched moved hbuilt hts
          | broken f f' => exact .matched moved hbuilt hts

end Run

/-- A text with the same tokens as one that is read completely is read completely too, and
both have trees of the same shape with the same bare tokens. -/
theorem read_alike {source source' : String} {t : Tree} (h : SameCode source source')
    (hread : read source = .ok t) : ∃ u, read source' = .ok u ∧ t.SameShape u := by
  have hrun := run_alike (fun j hj => hj) .nil h
  have hlength := h.length_eq
  unfold read parse at hread ⊢
  dsimp only at hread ⊢
  rw [← hlength]
  generalize run Grammar.table (depthFor (scan source).length) (.symbol .program) false []
    (scan source) = o at hrun hread
  generalize run Grammar.table (depthFor (scan source).length) (.symbol .program) false []
    (scan source') = o' at hrun ⊢
  cases hrun with
  | @matched moved built built' rest rest' hbuilt hrest =>
      cases rest with
      | nil =>
          cases rest' with
          | nil =>
              cases hread
              exact ⟨_, rfl, alike_node trivial (List.forall₂_reverse_iff.mpr hbuilt)⟩
          | cons u us => exact hrest.elim
      | cons a as => cases hread
  | declined f f' => cases hread
  | broken f f' => cases hread

end JavaAtlas.Java
