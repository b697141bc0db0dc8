import ImpSyntax.Proofs.Tree.Shown

/-!
# ImpSyntax.Proofs.Tree.Tidy

Programs that their dumps tell apart although a dump shows neither where a block ends nor whether a
separator is an empty statement.

In a tidy program a block is an arm or the body of a loop, and then none of its own statements is
empty; or it is the last statement of the program, or the last one of such a block. The labels
behind a tidy statement tell where it ends (`Stmt.endsAt`): behind a block stands a separator, and
behind that neither a statement nor a print item. At the end of the program a block needs no end.

* `Stmt.isTidy`, `Program.isTidy` — the condition.
* `Stmt.IsDetermined`             — no other tidy statement shows the same labels.
* `Stmt.isDetermined`             — this holds of every tidy statement, one constructor at a time.
* `Program.eq_of_shown`           — tidy programs that show the same labels are the same.
-/

namespace ImpSyntax

/-! ## The condition -/

def Stmt.isBlock : Stmt → Bool
  | .block _ => true
  | _ => false

def Stmt.isEmpty : Stmt → Bool
  | .empty => true
  | _ => false

mutual

/-- Whether blocks within the statement are arms or bodies, and no block has an empty statement of
its own. -/
def Stmt.isTidy : Stmt → Bool
  | .ifThen _ body | .whileLoop _ body => body.isTidy
  | .ifElse _ body other => body.isTidy && other.isTidy
  | .block body => Stmt.areTidy body && !body.any Stmt.isEmpty
  | .empty | .assign .. | .print .. | .putc .. => true

def Stmt.areTidy : List Stmt → Bool
  | [] => true
  | s :: body => s.isTidy && !s.isBlock && Stmt.areTidy body

end

mutual

/-- Whether the statement is tidy if the program ends behind it, so that a block needs no end. -/
def Stmt.isTidyLast : Stmt → Bool
  | .block body => Stmt.areTidyLast body
  | s => s.isTidy

def Stmt.areTidyLast : List Stmt → Bool
  | [] => true
  | s :: body =>
    if body.isEmpty then s.isTidyLast else s.isTidy && !s.isBlock && Stmt.areTidyLast body

end

def Program.isTidy (program : Program) : Bool := Stmt.areTidyLast program.body

theorem Stmt.areTidy_iff {body : List Stmt} :
    Stmt.areTidy body = true ↔ ∀ s ∈ body, s.isTidy = true ∧ s.isBlock = false := by
  induction body with
  | nil => simp [Stmt.areTidy]
  | cons s body ih => simp [Stmt.areTidy, ih]

namespace Stmt

@[elab_as_elim]
theorem induction {motive : Stmt → Prop} (empty : motive .empty)
    (assign : ∀ name value, motive (.assign name value))
    (ifThen : ∀ condition body, motive body → motive (.ifThen condition body))
    (ifElse : ∀ condition body other, motive body → motive other →
      motive (.ifElse condition body other))
    (whileLoop : ∀ condition body, motive body → motive (.whileLoop condition body))
    (print : ∀ first more, motive (.print first more)) (putc : ∀ value, motive (.putc value))
    (block : ∀ body, (∀ s ∈ body, motive s) → motive (.block body)) (s : Stmt) : motive s :=
  @Stmt.rec motive (fun body => ∀ s ∈ body, motive s) empty assign ifThen ifElse whileLoop print
    putc block (by simp) (fun s body hs hbody => List.forall_mem_cons.2 ⟨hs, hbody⟩) s

end Stmt

/-! ## Where statements end -/

variable {rest rest' : List Label}

/-- Whether the labels start with a statement that is neither empty nor a block. -/
def startsStmt : List Label → Bool
  | .assign :: _ | .branch :: _ | .loop :: _ | .printChar :: _ => true
  | .sequence :: .separator :: rest => startsItem rest
  | _ => false

/-- Whether a statement of a list may end in front of the labels. -/
def endsStmt : List Label → Bool
  | [] => true
  | .separator :: rest => !startsItem rest
  | _ => false

/-- Whether a block may end in front of the labels: they neither go on like its list of statements
nor like a print statement. -/
def endsBlock : List Label → Bool
  | [] => true
  | .separator :: rest => !startsItem rest && !startsStmt rest
  | _ => false

def Stmt.endsAt (s : Stmt) (rest : List Label) : Bool :=
  if s.isBlock then endsBlock rest else endsStmt rest

theorem endsStmt_cases (h : endsStmt rest = true) :
    rest = [] ∨ ∃ behind, rest = .separator :: behind ∧ startsItem behind = false := by
  cases rest with
  | nil => exact .inl rfl
  | cons label behind => cases label <;> simp_all [endsStmt]

theorem endsBlock_cases (h : endsBlock rest = true) :
    rest = [] ∨ ∃ behind, rest = .separator :: behind ∧ startsItem behind = false ∧
      startsStmt behind = false := by
  cases rest with
  | nil => exact .inl rfl
  | cons label behind => cases label <;> simp_all [endsBlock]

theorem endsBlock_of_endsStmt (h : endsStmt rest = true) :
    endsBlock (.separator :: rest) = true := by
  rcases endsStmt_cases h with rfl | ⟨behind, rfl, _⟩ <;> rfl

theorem endsStmt_of_endsBlock (h : endsBlock rest = true) : endsStmt rest = true := by
  rcases endsBlock_cases h with rfl | ⟨behind, rfl, hitem, _⟩
  · rfl
  · rw [endsStmt, hitem, Bool.not_false]

namespace Stmt

variable {s : Stmt}

theorem endsAt_of_endsBlock (s : Stmt) (h : endsBlock rest = true) : s.endsAt rest = true := by
  unfold endsAt
  split
  · exact h
  · exact endsStmt_of_endsBlock h

theorem startsItem_shown (s : Stmt) (rest : List Label) :
    startsItem (s.toTree.shown ++ rest) = false := by
  cases s <;> simp [startsItem]

theorem startsStmt_shown (hblock : s.isBlock = false) (hempty : s.isEmpty = false)
    (rest : List Label) : startsStmt (s.toTree.shown ++ rest) = true := by
  cases s with
  | empty => cases hempty
  | block body => cases hblock
  | print first more => simpa [startsStmt] using first.startsItem _
  | _ => simp [startsStmt]

theorem endsBlock_arm (s : Stmt) (rest : List Label) :
    endsBlock (.separator :: .sequence :: (s.toTree.shown ++ .separator :: rest)) = true := by
  cases s <;> simp [endsBlock, startsItem, startsStmt]

/-! ## Statements told by their labels -/

/-- Whether no other tidy statement shows the same labels, given what may be behind them. -/
def IsDetermined (s : Stmt) : Prop :=
  ∀ ⦃s' : Stmt⦄ ⦃rest rest' : List Label⦄, s'.isTidy = true → s.endsAt rest = true →
    s'.endsAt rest' = true → s.toTree.shown ++ rest = s'.toTree.shown ++ rest' →
      s = s' ∧ rest = rest'

theorem arm_append_inj {body body' : Stmt} (hbody : body.IsDetermined)
    (hbody' : body'.isTidy = true) (hrest : endsBlock (.separator :: rest) = true)
    (hrest' : endsBlock (.separator :: rest') = true)
    (h : Label.sequence :: (body.toTree.shown ++ .separator :: rest) =
      .sequence :: (body'.toTree.shown ++ .separator :: rest')) : body = body' ∧ rest = rest' := by
  obtain ⟨hsame, hend⟩ := hbody hbody' (body.endsAt_of_endsBlock hrest)
    (body'.endsAt_of_endsBlock hrest') (List.cons.inj h).2
  exact ⟨hsame, (List.cons.inj hend).2⟩

theorem isDetermined_empty : Stmt.empty.IsDetermined := by
  intro s' rest rest' _ _ _ h
  cases s' with
  | empty => exact ⟨rfl, (List.cons.inj h).2⟩
  | _ => simp at h

theorem isDetermined_assign (name : String) (value : Expr) :
    (Stmt.assign name value).IsDetermined := by
  intro s' rest rest' _ _ _ h
  cases s' with
  | assign name' value' =>
    simp only [shown_assign, List.cons_append, List.cons.injEq, Label.identifier.injEq,
      true_and] at h
    obtain ⟨rfl, hvalue⟩ := h
    obtain ⟨rfl, hsame⟩ := Expr.shown_append_inj hvalue
    exact ⟨rfl, hsame⟩
  | _ => simp at h

theorem isDetermined_putc (value : Expr) : (Stmt.putc value).IsDetermined := by
  intro s' rest rest' _ _ _ h
  cases s' with
  | putc value' =>
    rw [shown_putc, shown_putc] at h
    obtain ⟨rfl, hsame⟩ := Expr.shown_append_inj (List.cons.inj h).2
    exact ⟨rfl, hsame⟩
  | _ => simp at h

theorem isDetermined_whileLoop (condition : Expr) {body : Stmt} (hbody : body.IsDetermined) :
    (Stmt.whileLoop condition body).IsDetermined := by
  intro s' rest rest' hs' hrest hrest' h
  cases s' with
  | whileLoop condition' body' =>
    simp only [isTidy] at hs'
    simp only [shown_whileLoop, List.cons_append, List.append_assoc, List.nil_append,
      List.cons.injEq, true_and] at h
    obtain ⟨rfl, harm⟩ := Expr.shown_append_inj h
    obtain ⟨rfl, hsame⟩ := arm_append_inj hbody hs' (endsBlock_of_endsStmt hrest)
      (endsBlock_of_endsStmt hrest') harm
    exact ⟨rfl, hsame⟩
  | _ => simp at h

theorem isDetermined_ifThen (condition : Expr) {body : Stmt} (hbody : body.IsDetermined) :
    (Stmt.ifThen condition body).IsDetermined := by
  intro s' rest rest' hs' _ _ h
  cases s' with
  | ifThen condition' body' =>
    simp only [isTidy] at hs'
    simp only [shown_ifThen, List.cons_append, List.append_assoc, List.nil_append,
      List.cons.injEq, true_and] at h
    obtain ⟨rfl, harms⟩ := Expr.shown_append_inj h
    obtain ⟨rfl, hend⟩ := arm_append_inj hbody hs' rfl rfl (List.cons.inj harms).2
    exact ⟨rfl, (List.cons.inj hend).2⟩
  | ifElse condition' body' other' =>
    -- behind the first arm stands a separator here and a sequence there
    simp only [isTidy, Bool.and_eq_true] at hs'
    simp only [shown_ifThen, shown_ifElse, List.cons_append, List.append_assoc, List.nil_append,
      List.cons.injEq, true_and] at h
    obtain ⟨-, harms⟩ := Expr.shown_append_inj h
    obtain ⟨-, hend⟩ := arm_append_inj hbody hs'.1 rfl (endsBlock_arm other' rest')
      (List.cons.inj harms).2
    simp at hend
  | _ => simp at h

theorem isDetermined_ifElse (condition : Expr) {body other : Stmt} (hbody : body.IsDetermined)
    (hother : other.IsDetermined) :
    (Stmt.ifElse condition body other).IsDetermined := by
  intro s' rest rest' hs' hrest hrest' h
  cases s' with
  | ifThen condition' body' =>
    simp only [isTidy] at hs'
    simp only [shown_ifThen, shown_ifElse, List.cons_append, List.append_assoc, List.nil_append,
      List.cons.injEq, true_and] at h
    obtain ⟨-, harms⟩ := Expr.shown_append_inj h
    obtain ⟨-, hend⟩ := arm_append_inj hbody hs' (endsBlock_arm other rest) rfl
      (List.cons.inj harms).2
    simp at hend
  | ifElse condition' body' other' =>
    simp only [isTidy, Bool.and_eq_true] at hs'
    simp only [shown_ifElse, List.cons_append, List.append_assoc, List.nil_append,
      List.cons.injEq, true_and] at h
    obtain ⟨rfl, harms⟩ := Expr.shown_append_inj h
    obtain ⟨rfl, harm⟩ := arm_append_inj hbody hs'.1 (endsBlock_arm other rest)
      (endsBlock_arm other' rest') (List.cons.inj harms).2
    obtain ⟨rfl, hsame⟩ := arm_append_inj hother hs'.2 (endsBlock_of_endsStmt hrest)
      (endsBlock_of_endsStmt hrest') harm
    exact ⟨rfl, hsame⟩
  | _ => simp at h

/-- A print statement is no block: behind its first separator stands an item. -/
theorem print_append_ne_block {first : PrintItem} {more : List PrintItem} {body : List Stmt}
    (hrest' : endsBlock rest' = true) :
    (print first more).toTree.shown ++ rest ≠ (block body).toTree.shown ++ rest' := by
  intro h
  have hitem := first.startsItem (more.flatMap (.separator :: ·.toTree.shown) ++ rest)
  cases body with
  | nil =>
    simp only [shown_print, shown_block, shown_chain_nil, List.flatMap_cons, List.cons_append,
      List.append_assoc, List.nil_append, List.cons.injEq, true_and] at h
    rw [h] at hitem
    rcases endsBlock_cases hrest' with rfl | ⟨behind, rfl, _⟩ <;> cases hitem
  | cons s body =>
    simp only [shown_print, shown_block, shown_chain_cons, List.flatMap_cons, List.cons_append,
      List.append_assoc, List.cons.injEq, true_and] at h
    rw [h, startsItem_shown] at hitem
    cases hitem

theorem isDetermined_print (first : PrintItem) (more : List PrintItem) :
    (Stmt.print first more).IsDetermined := by
  have htail : ∀ {rest : List Label}, endsStmt rest = true → startsItem rest.tail = false := by
    intro rest hrest
    rcases endsStmt_cases hrest with rfl | ⟨behind, rfl, hitem⟩
    · rfl
    · exact hitem
  intro s' rest rest' _ hrest hrest' h
  cases s' with
  | print first' more' =>
    rw [shown_print, shown_print] at h
    obtain ⟨hitems, hsame⟩ := items_append_inj (htail hrest) (htail hrest') (List.cons.inj h).2
    obtain ⟨rfl, rfl⟩ := List.cons.inj hitems
    exact ⟨rfl, hsame⟩
  | block body' => exact absurd h (print_append_ne_block hrest')
  | _ => simp at h

/-- A block without statements is no block with statements: behind its separator stands another
one, and not a statement. -/
theorem nil_append_ne_cons {s : Stmt} {body : List Stmt} (hblock : s.isBlock = false)
    (hempty : s.isEmpty = false) (hrest : endsBlock rest = true) :
    (block []).toTree.shown ++ rest ≠ (block (s :: body)).toTree.shown ++ rest' := by
  intro h
  have hstart := startsStmt_shown hblock hempty
    (body.flatMap (.separator :: ·.toTree.shown) ++ rest')
  simp only [shown_block, shown_chain_nil, shown_chain_cons, List.flatMap_cons, List.cons_append,
    List.append_assoc, List.nil_append, List.cons.injEq, true_and] at h
  rw [← h] at hstart
  rcases endsBlock_cases hrest with rfl | ⟨behind, rfl, _⟩ <;> cases hstart

theorem tidy_block {body : List Stmt} (h : (block body).isTidy = true) :
    ∀ s ∈ body, s.isTidy = true ∧ s.isBlock = false ∧ s.isEmpty = false := by
  simp only [isTidy, Bool.and_eq_true, areTidy_iff, Bool.not_eq_true', List.any_eq_false,
    Bool.not_eq_true] at h
  exact fun s hs => ⟨(h.1 s hs).1, (h.1 s hs).2, h.2 s hs⟩

/-- Whether the labels go on with a statement of a block. -/
def goesOn : List Label → Bool
  | .separator :: rest => startsStmt rest
  | _ => false

theorem ends_goesOn (h : endsBlock rest = true) : endsStmt rest = true ∧ goesOn rest = false := by
  refine ⟨endsStmt_of_endsBlock h, ?_⟩
  rcases endsBlock_cases h with rfl | ⟨behind, rfl, _, hstmt⟩
  · rfl
  · exact hstmt

/-- The statements of blocks, none of which is empty or a block. -/
theorem body_append_inj {body body' : List Stmt} (hbody : ∀ s ∈ body, s.IsDetermined)
    (htidy : (block body).isTidy = true) (htidy' : (block body').isTidy = true)
    (hrest : endsBlock rest = true) (hrest' : endsBlock rest' = true)
    (h : body.flatMap (.separator :: ·.toTree.shown) ++ rest =
      body'.flatMap (.separator :: ·.toTree.shown) ++ rest') : body = body' ∧ rest = rest' := by
  have hitem := tidy_block htidy
  have hitem' := tidy_block htidy'
  refine flatMap_append_inj (P := (endsStmt · = true)) (q := goesOn) ?_ ?_ (ends_goesOn hrest)
    (ends_goesOn hrest') h
  · intro s hs s' hs' rest rest' hends hends' h
    obtain ⟨_, hblock, _⟩ := hitem s hs
    obtain ⟨hs'tidy, hblock', _⟩ := hitem' s' hs'
    exact hbody s hs hs'tidy (by rwa [endsAt, hblock]) (by rwa [endsAt, hblock'])
      (List.cons.inj h).2
  · intro s hs rest
    obtain ⟨_, hblock, hempty⟩ := hs.elim (hitem s) (hitem' s)
    exact ⟨by simp [endsStmt, startsItem_shown], startsStmt_shown hblock hempty rest⟩

theorem isDetermined_block {body : List Stmt} (hbody : ∀ s ∈ body, s.IsDetermined)
    (htidy : (block body).isTidy = true) : (block body).IsDetermined := by
  intro s' rest rest' htidy' hrest hrest' h
  cases s' with
  | print first' more' => exact absurd h.symm (print_append_ne_block hrest)
  | block body' =>
    cases body with
    | nil =>
      cases body' with
      | nil => exact ⟨rfl, by simpa using h⟩
      | cons s' body' =>
        obtain ⟨_, hblock, hempty⟩ := tidy_block htidy' s' List.mem_cons_self
        exact absurd h (nil_append_ne_cons hblock hempty hrest)
    | cons s body =>
      cases body' with
      | nil =>
        obtain ⟨_, hblock, hempty⟩ := tidy_block htidy s List.mem_cons_self
        exact absurd h.symm (nil_append_ne_cons hblock hempty hrest')
      | cons s' body' =>
        rw [shown_block, shown_block, shown_chain_cons, shown_chain_cons] at h
        obtain ⟨hsame, hend⟩ := body_append_inj hbody htidy htidy' hrest hrest' (List.cons.inj h).2
        exact ⟨congrArg block hsame, hend⟩
  | _ => simp at h

theorem isDetermined {s : Stmt} (hs : s.isTidy = true) : s.IsDetermined := by
  induction s using Stmt.induction with
  | empty => exact isDetermined_empty
  | assign name value => exact isDetermined_assign name value
  | ifThen condition body ih => exact isDetermined_ifThen condition (ih hs)
  | ifElse condition body other ihb iho =>
    simp only [isTidy, Bool.and_eq_true] at hs
    exact isDetermined_ifElse condition (ihb hs.1) (iho hs.2)
  | whileLoop condition body ih => exact isDetermined_whileLoop condition (ih hs)
  | print first more => exact isDetermined_print first more
  | putc value => exact isDetermined_putc value
  | block body ih =>
    exact isDetermined_block (fun s hmem => ih s hmem (tidy_block hs s hmem).1) hs

end Stmt

/-! ## Programs told by their labels -/

namespace Stmt

theorem shown_ne_nil (s : Stmt) : s.toTree.shown ≠ [] := by
  cases s <;> simp

theorem isTidy_of_isTidyLast {s : Stmt} (h : s.isTidyLast = true) (hblock : s.isBlock = false) :
    s.isTidy = true := by
  cases s with
  | block body => cases hblock
  | _ => exact h

theorem flatMap_eq_of_chain {body body' : List Stmt}
    (h : (Tree.chain (Stmt.toTrees body)).shown = (Tree.chain (Stmt.toTrees body')).shown) :
    body.flatMap (.separator :: ·.toTree.shown) = body'.flatMap (.separator :: ·.toTree.shown) := by
  cases body with
  | nil =>
    cases body' with
    | nil => rfl
    | cons s' body' => simp [shown_chain_nil, shown_chain_cons, shown_ne_nil] at h
  | cons s body =>
    cases body' with
    | nil => simp [shown_chain_nil, shown_chain_cons, shown_ne_nil] at h
    | cons s' body' => rwa [shown_chain_cons, shown_chain_cons] at h

/-- A statement that is no block, in front of what may follow it, is told from what stands at the
end of a program. -/
theorem append_eq_last {s s' : Stmt} (hs : s.isTidy = true) (hblock : s.isBlock = false)
    (hrest : endsStmt rest = true) (hs' : s'.isTidyLast = true)
    (h : s.toTree.shown ++ rest = s'.toTree.shown) : s = s' ∧ rest = [] := by
  rw [← List.append_nil s'.toTree.shown] at h
  cases hblock' : s'.isBlock with
  | false =>
    exact isDetermined hs (isTidy_of_isTidyLast hs' hblock') (by rwa [endsAt, hblock])
      (by rw [endsAt, hblock']; rfl) h
  | true =>
    cases s' with
    | block body' =>
      cases s with
      | print first more => exact absurd h (print_append_ne_block rfl)
      | block body => cases hblock
      | _ => simp at h
    | _ => cases hblock'

theorem areTidyLast_cons {s : Stmt} {body : List Stmt} (h : areTidyLast (s :: body) = true) :
    body = [] ∧ s.isTidyLast = true ∨
      body ≠ [] ∧ s.isTidy = true ∧ s.isBlock = false ∧ areTidyLast body = true := by
  unfold areTidyLast at h
  split at h
  · exact .inl ⟨List.isEmpty_iff.1 ‹_›, h⟩
  · simp only [Bool.and_eq_true, Bool.not_eq_true'] at h
    exact .inr ⟨mt List.isEmpty_iff.2 ‹_›, h.1.1, h.1.2, h.2⟩

theorem list_eq_of_shown {body body' : List Stmt}
    (hlast : ∀ s ∈ body, ∀ ⦃s' : Stmt⦄, s.isTidyLast = true → s'.isTidyLast = true →
      s.toTree.shown = s'.toTree.shown → s = s')
    (htidy : areTidyLast body = true) (htidy' : areTidyLast body' = true)
    (h : body.flatMap (.separator :: ·.toTree.shown) =
      body'.flatMap (.separator :: ·.toTree.shown)) : body = body' := by
  have hends : ∀ body : List Stmt,
      endsStmt (body.flatMap (.separator :: ·.toTree.shown)) = true := by
    intro body
    cases body <;> simp [endsStmt, startsItem_shown]
  have hnone : ∀ body : List Stmt,
      body.flatMap (.separator :: ·.toTree.shown) = [] → body = [] := by
    intro body hnil
    cases body with
    | nil => rfl
    | cons s body => cases hnil
  induction body generalizing body' with
  | nil =>
    cases body' with
    | nil => rfl
    | cons s' body' => simp at h
  | cons s body ih =>
    cases body' with
    | nil => simp at h
    | cons s' body' =>
      rw [List.flatMap_cons, List.flatMap_cons] at h
      have hlabels := (List.cons.inj h).2
      rcases areTidyLast_cons htidy with ⟨rfl, hs⟩ | ⟨hne, hs, hblock, hbody⟩ <;>
        rcases areTidyLast_cons htidy' with ⟨rfl, hs'⟩ | ⟨hne', hs', hblock', hbody'⟩
      · rw [hlast s List.mem_cons_self hs hs' (List.append_cancel_right hlabels)]
      · obtain ⟨_, hnil⟩ := append_eq_last hs' hblock' (hends body') hs
          (by simpa using hlabels.symm)
        exact absurd (hnone body' hnil) hne'
      · obtain ⟨_, hnil⟩ := append_eq_last hs hblock (hends body) hs' (by simpa using hlabels)
        exact absurd (hnone body hnil) hne
      · obtain ⟨rfl, hmore⟩ := isDetermined hs hs' (by rw [endsAt, hblock]; exact hends body)
          (by rw [endsAt, hblock']; exact hends body') hlabels
        rw [ih (fun t ht => hlast t (List.mem_cons_of_mem s ht)) hbody hbody' hmore]

theorem eq_of_shown {s s' : Stmt} (hs : s.isTidyLast = true) (hs' : s'.isTidyLast = true)
    (h : s.toTree.shown = s'.toTree.shown) : s = s' := by
  induction s using Stmt.induction generalizing s' with
  | block body ih =>
    cases s' with
    | block body' =>
      rw [shown_block, shown_block] at h
      have hitems := flatMap_eq_of_chain (List.cons.inj h).2
      exact congrArg block (list_eq_of_shown (fun s hmem _ => ih s hmem) hs hs' hitems)
    | _ => exact (append_eq_last hs' rfl rfl hs (by rw [List.append_nil, h])).1.symm
  | _ => exact (append_eq_last hs rfl rfl hs' (by rw [List.append_nil, h])).1

end Stmt

/-- Tidy programs that show the same labels are the same. -/
theorem Program.eq_of_shown {program program' : Program} (htidy : program.isTidy = true)
    (htidy' : program'.isTidy = true) (h : program.toTree.shown = program'.toTree.shown) :
    program = program' := by
  have hlast : (Stmt.block program.body).toTree.shown = (Stmt.block program'.body).toTree.shown := h
  have hsame := @Stmt.eq_of_shown (.block _) (.block _) htidy htidy' hlast
  obtain ⟨body⟩ := program
  cases hsame
  rfl

end ImpSyntax
