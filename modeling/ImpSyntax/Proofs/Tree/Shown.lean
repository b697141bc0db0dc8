import ImpSyntax.Proofs.Tree.Dump
import ImpSyntax.Tree.OfProgram

/-!
# ImpSyntax.Proofs.Tree.Shown

The labels that trees of programs show, constructor by constructor, and which of them tell what
they were shown for. The label of an expression says how many operands follow, so expressions and
print items are told whatever comes behind them (`Expr.print_append_inj`,
`PrintItem.shown_append_inj`). Lists are told if the labels behind them do not go on like an item
(`flatMap_append_inj`).
-/

namespace ImpSyntax

namespace Tree

@[simp] theorem shown_absent : absent.shown = [] := rfl

@[simp] theorem shown_node (label : Label) (left right : Tree) :
    (node label left right).shown = label.shown :: (left.shown ++ right.shown) := by
  simp [shown, labels]

@[simp] theorem shown_arm (body : Tree) :
    body.arm.shown = .sequence :: (body.shown ++ [.separator]) := by
  simp [arm, empty, leaf, Label.shown]

theorem shown_chain_cons (item : Tree) (items : List Tree) :
    (chain (item :: items)).shown = (item :: items).flatMap (.separator :: ·.shown) := by
  rw [shown, labels_chain_cons, List.map_flatMap]
  rfl

@[simp] theorem shown_sequence (items : List Tree) :
    (sequence items).shown = .sequence :: (chain items).shown := by
  simp [sequence, unary, Label.shown]

end Tree

namespace Stmt

theorem toTrees_eq_map (body : List Stmt) : Stmt.toTrees body = body.map Stmt.toTree := by
  induction body with
  | nil => rfl
  | cons s body ih => rw [Stmt.toTrees, ih, List.map_cons]

@[simp] theorem shown_empty : Stmt.empty.toTree.shown = [.separator] := rfl

@[simp] theorem shown_assign (name : String) (value : Expr) :
    (Stmt.assign name value).toTree.shown =
      .assign :: .identifier name :: value.toTree.shown := by
  simp [Stmt.toTree, Tree.leaf, Label.shown]

@[simp] theorem shown_ifThen (condition : Expr) (body : Stmt) :
    (Stmt.ifThen condition body).toTree.shown =
      .branch :: (condition.toTree.shown ++
        .branch :: .sequence :: (body.toTree.shown ++ [.separator, .separator])) := by
  simp [Stmt.toTree, Tree.empty, Tree.leaf, Label.shown]

@[simp] theorem shown_ifElse (condition : Expr) (body other : Stmt) :
    (Stmt.ifElse condition body other).toTree.shown =
      .branch :: (condition.toTree.shown ++
        .branch :: .sequence :: (body.toTree.shown ++
          .separator :: .sequence :: (other.toTree.shown ++ [.separator]))) := by
  simp [Stmt.toTree, Label.shown]

@[simp] theorem shown_whileLoop (condition : Expr) (body : Stmt) :
    (Stmt.whileLoop condition body).toTree.shown =
      .loop :: (condition.toTree.shown ++
        .sequence :: (body.toTree.shown ++ [.separator])) := by
  simp [Stmt.toTree, Label.shown]

@[simp] theorem shown_print (first : PrintItem) (more : List PrintItem) :
    (Stmt.print first more).toTree.shown =
      .sequence :: (first :: more).flatMap (.separator :: ·.toTree.shown) := by
  rw [Stmt.toTree, List.map_cons, Tree.shown_sequence, Tree.shown_chain_cons, ← List.map_cons,
    List.flatMap_map]

@[simp] theorem shown_putc (value : Expr) :
    (Stmt.putc value).toTree.shown = .printChar :: value.toTree.shown := by
  simp [Stmt.toTree, Tree.unary, Label.shown]

@[simp] theorem shown_block (body : List Stmt) :
    (Stmt.block body).toTree.shown = .sequence :: (Tree.chain (Stmt.toTrees body)).shown := by
  simp [Stmt.toTree]

theorem shown_chain_nil : (Tree.chain (Stmt.toTrees [])).shown = [.separator] := rfl

theorem shown_chain_cons (s : Stmt) (body : List Stmt) :
    (Tree.chain (Stmt.toTrees (s :: body))).shown =
      (s :: body).flatMap (.separator :: ·.toTree.shown) := by
  rw [toTrees_eq_map, List.map_cons, Tree.shown_chain_cons, ← List.map_cons, List.flatMap_map]

end Stmt

/-! ## Lists of items -/

/-- Lists of items, one behind the other, are told apart if single items are and if the labels
behind a list do not go on like an item. -/
theorem flatMap_append_inj {α β : Type} {f : α → List β} {P : List β → Prop} {q : List β → Bool}
    {as as' : List α} {rest rest' : List β}
    (hinj : ∀ a ∈ as, ∀ a' ∈ as', ∀ rest rest', P rest → P rest' →
      f a ++ rest = f a' ++ rest' → a = a' ∧ rest = rest')
    (hitem : ∀ a, a ∈ as ∨ a ∈ as' → ∀ rest, P (f a ++ rest) ∧ q (f a ++ rest) = true)
    (hrest : P rest ∧ q rest = false) (hrest' : P rest' ∧ q rest' = false)
    (h : as.flatMap f ++ rest = as'.flatMap f ++ rest') : as = as' ∧ rest = rest' := by
  have hbehind : ∀ {as : List α} {rest : List β},
      (∀ a ∈ as, ∀ rest, P (f a ++ rest) ∧ q (f a ++ rest) = true) → P rest →
        P (as.flatMap f ++ rest) := by
    intro as rest hitem hrest
    cases as with
    | nil => exact hrest
    | cons a as => simpa using (hitem a List.mem_cons_self (as.flatMap f ++ rest)).1
  induction as generalizing as' with
  | nil =>
    cases as' with
    | nil => exact ⟨rfl, h⟩
    | cons a' as' =>
      have hmore := (hitem a' (.inr List.mem_cons_self) (as'.flatMap f ++ rest')).2
      simp only [List.flatMap_nil, List.nil_append, List.flatMap_cons, List.append_assoc] at h
      rw [← h, hrest.2] at hmore
      cases hmore
  | cons a as ih =>
    cases as' with
    | nil =>
      have hmore := (hitem a (.inl List.mem_cons_self) (as.flatMap f ++ rest)).2
      simp only [List.flatMap_nil, List.nil_append, List.flatMap_cons, List.append_assoc] at h
      rw [h, hrest'.2] at hmore
      cases hmore
    | cons a' as' =>
      simp only [List.forall_mem_cons] at hinj
      have hitems : ∀ b, b ∈ as ∨ b ∈ as' → ∀ rest, P (f b ++ rest) ∧ q (f b ++ rest) = true :=
        fun b hb => hitem b (hb.imp (List.mem_cons_of_mem a) (List.mem_cons_of_mem a'))
      simp only [List.flatMap_cons, List.append_assoc] at h
      obtain ⟨rfl, hmore⟩ := hinj.1.1 _ _ (hbehind (fun b hb => hitems b (.inl hb)) hrest.1)
        (hbehind (fun b hb => hitems b (.inr hb)) hrest'.1) h
      obtain ⟨rfl, hsame⟩ := ih (fun b hb => (hinj.2 b hb).2) hitems hmore
      exact ⟨rfl, hsame⟩

/-! ## Expressions and print items -/

/-- What is printed for such a label tells the label, whatever is printed behind it. -/
def Tells {β : Type} (print : Label → List β) (P : Label → Prop) : Prop :=
  ∀ {label label' : Label} {rest rest' : List β}, P label → P label' →
    print label ++ rest = print label' ++ rest' → label = label' ∧ rest = rest'

theorem Tells.node_append_inj {β : Type} {print : Label → List β} {P : Label → Prop}
    (hprint : Tells print P) {label label' : Label} {left right left' right' : Tree}
    {rest rest' : List β} (hnode : ∀ l ∈ (Tree.node label left right).labels, P l)
    (hnode' : ∀ l ∈ (Tree.node label' left' right').labels, P l)
    (h : (Tree.node label left right).labels.flatMap print ++ rest =
      (Tree.node label' left' right').labels.flatMap print ++ rest') :
    label = label' ∧ left.labels.flatMap print ++ (right.labels.flatMap print ++ rest) =
      left'.labels.flatMap print ++ (right'.labels.flatMap print ++ rest') := by
  simp only [Tree.labels, List.forall_mem_cons, List.flatMap_cons, List.flatMap_append,
    List.append_assoc] at hnode hnode' h
  exact hprint hnode.1 hnode'.1 h

/-- The label of an expression says how many operands follow, so if labels are told whatever is
printed behind them, so are expressions. -/
theorem Expr.print_append_inj {β : Type} {print : Label → List β} {P : Label → Prop}
    (hprint : Tells print P) {e e' : Expr} {rest rest' : List β}
    (he : ∀ label ∈ e.toTree.labels, P label) (he' : ∀ label ∈ e'.toTree.labels, P label)
    (h : e.toTree.labels.flatMap print ++ rest = e'.toTree.labels.flatMap print ++ rest') :
    e = e' ∧ rest = rest' := by
  induction e generalizing e' rest rest' with
  | identifier name =>
    cases e' with
    | identifier name' =>
      obtain ⟨hlabel, hrest⟩ := hprint.node_append_inj he he' h
      cases hlabel
      exact ⟨rfl, hrest⟩
    | _ => cases (hprint.node_append_inj he he' h).1
  | integer digits =>
    cases e' with
    | integer digits' =>
      obtain ⟨hlabel, hrest⟩ := hprint.node_append_inj he he' h
      cases hlabel
      exact ⟨rfl, hrest⟩
    | _ => cases (hprint.node_append_inj he he' h).1
  | unary op operand ih =>
    cases e' with
    | unary op' operand' =>
      obtain ⟨hlabel, hoperand⟩ := hprint.node_append_inj he he' h
      cases hlabel
      simp only [toTree, Tree.unary, Tree.labels, List.append_nil, List.forall_mem_cons] at he he'
      obtain ⟨rfl, hrest⟩ := ih he.2 he'.2 hoperand
      exact ⟨rfl, hrest⟩
    | _ => cases (hprint.node_append_inj he he' h).1
  | binary op left right ihl ihr =>
    cases e' with
    | binary op' left' right' =>
      obtain ⟨hlabel, hoperands⟩ := hprint.node_append_inj he he' h
      cases hlabel
      simp only [toTree, Tree.labels, List.forall_mem_cons, List.forall_mem_append] at he he'
      obtain ⟨rfl, hright⟩ := ihl he.2.1 he'.2.1 hoperands
      obtain ⟨rfl, hrest⟩ := ihr he.2.2 he'.2.2 hright
      exact ⟨rfl, hrest⟩
    | _ => cases (hprint.node_append_inj he he' h).1

/-- No expression has an empty statement in it, so its labels are shown as they are. -/
theorem Expr.shown_label (e : Expr) : ∀ label ∈ e.toTree.labels, label.shown = label := by
  induction e with
  | identifier name => simp [toTree, Tree.leaf, Tree.labels, Label.shown]
  | integer digits => simp [toTree, Tree.leaf, Tree.labels, Label.shown]
  | unary op operand ih => simpa [toTree, Tree.unary, Tree.labels, Label.shown] using ih
  | binary op left right ihl ihr =>
    simp only [toTree, Tree.labels, List.forall_mem_cons, List.forall_mem_append]
    exact ⟨rfl, ihl, ihr⟩

variable {rest rest' : List Label}

theorem Expr.shown_append_inj {e e' : Expr}
    (h : e.toTree.shown ++ rest = e'.toTree.shown ++ rest') : e = e' ∧ rest = rest' := by
  have htells : Tells (fun label => [label.shown]) fun label => label.shown = label := by
    intro label label' rest rest' hshown hshown' h
    obtain ⟨hlabel, hrest⟩ := List.cons.inj h
    exact ⟨by rw [← hshown, hlabel, hshown'], hrest⟩
  rw [Tree.shown, Tree.shown, List.map_eq_flatMap, List.map_eq_flatMap] at h
  exact Expr.print_append_inj htells e.shown_label e'.shown_label h

theorem PrintItem.shown_append_inj {item item' : PrintItem}
    (h : item.toTree.shown ++ rest = item'.toTree.shown ++ rest') :
    item = item' ∧ rest = rest' := by
  cases item with
  | string text =>
    cases item' <;> simp_all [PrintItem.toTree, Tree.leaf, Tree.unary, Label.shown]
  | expr value =>
    cases item' with
    | string text' => simp [PrintItem.toTree, Tree.leaf, Tree.unary, Label.shown] at h
    | expr value' =>
      simp only [PrintItem.toTree, Tree.unary, Tree.shown_node, Label.shown, Tree.shown_absent,
        List.append_nil, List.cons_append, List.cons.injEq, true_and] at h
      obtain ⟨rfl, hrest⟩ := Expr.shown_append_inj h
      exact ⟨rfl, hrest⟩

/-- Whether the labels start with a print item. -/
def startsItem : List Label → Bool
  | .printInteger :: _ | .printString :: _ => true
  | _ => false

theorem PrintItem.startsItem (item : PrintItem) (rest : List Label) :
    startsItem (item.toTree.shown ++ rest) = true := by
  cases item <;> rfl

theorem items_append_inj {items items' : List PrintItem}
    (hrest : startsItem rest.tail = false) (hrest' : startsItem rest'.tail = false)
    (h : items.flatMap (.separator :: ·.toTree.shown) ++ rest =
      items'.flatMap (.separator :: ·.toTree.shown) ++ rest') :
    items = items' ∧ rest = rest' := by
  refine flatMap_append_inj (P := fun _ => True) (q := fun rest => startsItem rest.tail) ?_ ?_
    ⟨trivial, hrest⟩ ⟨trivial, hrest'⟩ h
  · intro item _ item' _ rest rest' _ _ h
    exact PrintItem.shown_append_inj (List.cons.inj h).2
  · exact fun item _ rest => ⟨trivial, item.startsItem rest⟩

end ImpSyntax
