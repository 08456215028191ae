import Flusso.Sql.Semantics

/-! # Rules of evaluation

Where the conditions of a subquery come out, it selects the rows they hold of;
where sort keys come out, it sorts by them.
-/

namespace Sql

section Lists

variable {β γ : Type} {l : List β}

theorem mapM_eq_some {f : β → Option γ} {g : β → γ} (h : ∀ b ∈ l, f b = some (g b)) :
    l.mapM f = some (l.map g) := by
  induction l with
  | nil => rfl
  | cons b l ih =>
    rw [List.mapM_cons, h b List.mem_cons_self, ih fun b' hb' => h b' (List.mem_cons_of_mem _ hb')]
    rfl

theorem filterM_map {f : γ → Option Bool} {g : β → γ} {p : β → Bool}
    (h : ∀ b ∈ l, f (g b) = some (p b)) :
    (l.map g).filterM f = some ((l.filter p).map g) := by
  have haux : ∀ (l : List β) (acc : List γ), (∀ b ∈ l, f (g b) = some (p b)) →
      List.filterAuxM f (l.map g) acc = some (((l.filter p).map g).reverse ++ acc) := by
    intro l
    induction l with
    | nil => exact fun _ _ => rfl
    | cons b l ih =>
      intro acc h
      rw [List.map_cons, List.filterAuxM, h b List.mem_cons_self]
      have hrest := fun b' hb' => h b' (List.mem_cons_of_mem _ hb')
      cases hb : p b with
      | true =>
        rw [List.filter_cons_of_pos hb, List.map_cons, List.reverse_cons, List.append_assoc]
        exact ih _ hrest
      | false =>
        rw [List.filter_cons_of_neg (by simp [hb])]
        exact ih _ hrest
  simp [List.filterM, haux l [] h]

end Lists

variable {α κ τ S : Type} [DecidableEq α] [Values S] (session : Session α κ τ S)
  {scope : Scope α κ τ S}

/-- A condition comes out, true where the first Boolean is and false where the second is. -/
def Decides (scope : Scope α κ τ S) (cond : Cond α κ τ) (holds fails : Bool) : Prop :=
  ∃ truth, cond.eval session scope = some truth ∧
    (truth = some true ↔ holds = true) ∧ (truth = some false ↔ fails = true)

/-- A condition comes out, true where the Boolean is. -/
def Accepts (scope : Scope α κ τ S) (cond : Cond α κ τ) (holds : Bool) : Prop :=
  ∃ truth, cond.eval session scope = some truth ∧ (truth = some true ↔ holds = true)

variable {session} in
theorem Decides.accepts {cond : Cond α κ τ} {holds fails : Bool}
    (h : Decides session scope cond holds fails) : Accepts session scope cond holds := by
  obtain ⟨truth, heval, htrue, -⟩ := h
  exact ⟨truth, heval, htrue⟩

section Scopes

variable {row : α} {bound : Bound κ τ S}

omit [Values S] in
@[simp] theorem bind_self : scope.bind row bound row = some bound := Function.update_self ..

omit [Values S] in
theorem bind_of_ne {other : α} (h : other ≠ row) : scope.bind row bound other = scope other :=
  Function.update_of_ne h ..

end Scopes

section Decides

attribute [local simp] Cond.eval

variable {session} {cond a b : Cond α κ τ} {p p' q q' : Bool} {c : Col α κ} {v w : S}

theorem decides_always : Decides session scope (.always : Cond α κ τ) true false :=
  ⟨some true, rfl, by simp, by simp⟩

theorem decides_compare {op : Comparison} {operand : Operand α κ} (hc : c.eval scope = some v)
    (hoperand : operand.eval session scope = some w) :
    Decides session scope (.compare op c operand)
      (Values.compare op v w = some true) (Values.compare op v w = some false) := by
  refine ⟨Values.compare op v w, ?_, by simp, by simp⟩
  simp only [Cond.eval, hc, hoperand, Option.bind_eq_bind, Option.bind_some, Option.pure_def]

theorem Decides.and (ha : Decides session scope a p p') (hb : Decides session scope b q q') :
    Decides session scope (.and a b) (p && q) (p' || q') := by
  obtain ⟨truth, heval, htrue, hfalse⟩ := ha
  obtain ⟨truth', heval', htrue', hfalse'⟩ := hb
  refine ⟨conj truth truth', ?_, by simp [htrue, htrue'], by simp [hfalse, hfalse']⟩
  simp only [Cond.eval, heval, heval', Option.bind_eq_bind, Option.bind_some, Option.pure_def]

theorem Decides.paren (ha : Decides session scope a p p') :
    Decides session scope (.paren a) p p' := by
  obtain ⟨truth, heval, htruth⟩ := ha
  exact ⟨truth, by rw [Cond.eval, heval], htruth⟩

theorem Decides.not (ha : Decides session scope a p p') :
    Decides session scope (.not a) p' p := by
  obtain ⟨truth, heval, htrue, hfalse⟩ := ha
  refine ⟨truth.map Bool.not, ?_, ?_, ?_⟩
  · simp only [Cond.eval, heval, Option.bind_eq_bind, Option.bind_some, Option.pure_def]
  · rw [map_not_eq_true, hfalse]
  · rw [map_not_eq_false, htrue]

theorem decides_isNull {negated : Bool} (hc : c.eval scope = some v) :
    Decides session scope (.isNull negated c)
      (if negated then !Values.isNull v else Values.isNull v)
      (if negated then Values.isNull v else !Values.isNull v) := by
  refine ⟨some (if negated then !Values.isNull v else Values.isNull v), ?_, by simp, ?_⟩
  · simp only [Cond.eval, hc, Option.bind_eq_bind, Option.bind_some, Option.pure_def]
  · cases negated <;> simp

theorem decides_marked (hc : c.eval scope = some v) :
    Decides session scope (.marked c)
      (!Values.isNull v && (Values.boolean v).getD true)
      (Values.isNull v || !(Values.boolean v).getD true) := by
  refine ⟨some (if Values.isNull v then false else (Values.boolean v).getD true), ?_, ?_, ?_⟩
  · simp only [Cond.eval, hc, Option.bind_eq_bind, Option.bind_some, Option.pure_def]
  · cases Values.isNull v <;> simp
  · cases Values.isNull v <;> simp

theorem decides_between {lower upper : Param} {l u : S} (hc : c.eval scope = some v)
    (hl : lower.eval session = some l) (hu : upper.eval session = some u) :
    Decides session scope (.between c lower upper)
      (decide (Values.compare .ge v l = some true) &&
        decide (Values.compare .le v u = some true))
      (decide (Values.compare .ge v l = some false) ||
        decide (Values.compare .le v u = some false)) := by
  refine ⟨conj (Values.compare .ge v l) (Values.compare .le v u), ?_, by simp, by simp⟩
  simp only [Cond.eval, hc, hl, hu, Option.bind_eq_bind, Option.bind_some, Option.pure_def]

theorem decides_within {negated : Bool} {params : List Param} {vs : List S} (hne : params ≠ [])
    (hc : c.eval scope = some v) (hparams : params.mapM (Param.eval session) = some vs) :
    Decides session scope (.within negated c params)
      (if negated then vs.all fun w => decide (Values.compare .eq v w = some false)
        else vs.any fun w => decide (Values.compare .eq v w = some true))
      (if negated then vs.any fun w => decide (Values.compare .eq v w = some true)
        else vs.all fun w => decide (Values.compare .eq v w = some false)) := by
  let found := vs.foldr (fun w found => disj (Values.compare .eq v w) found) (some false)
  have htrue : found = some true ↔ ∃ w ∈ vs, Values.compare .eq v w = some true :=
    foldr_disj_eq_true
  have hfalse : found = some false ↔ ∀ w ∈ vs, Values.compare .eq v w = some false :=
    foldr_disj_eq_false
  refine ⟨if negated then found.map Bool.not else found, ?_, ?_, ?_⟩
  · rw [Cond.eval, if_neg (by simpa using hne)]
    simp only [hc, hparams, Option.bind_eq_bind, Option.bind_some, Option.pure_def]
    rfl
  · cases negated with
    | true => simpa [map_not_eq_true] using hfalse
    | false => simpa using htrue
  · cases negated with
    | true => simpa [map_not_eq_false] using htrue
    | false => simpa using hfalse

theorem decides_inSelect {selected : Col α κ} {table : τ} {row : α} {rows : List (κ → S)}
    {key : (κ → S) → S} {holds : (κ → S) → Bool} (hc : c.eval scope = some v)
    (hrows : session.rows table = some rows)
    (hkey : ∀ r ∈ rows, selected.eval (scope.bind row (table, r)) = some (key r))
    (hcond : ∀ r ∈ rows, Accepts session (scope.bind row (table, r)) cond (holds r)) :
    Decides session scope (.inSelect c selected table row cond)
      (rows.any fun r => decide (Values.compare .eq v (key r) = some true) && holds r)
      (rows.all fun r => decide (Values.compare .eq v (key r) = some false) || !holds r) := by
  let compared (r : κ → S) : Option Bool :=
    if holds r = true then Values.compare .eq v (key r) else some false
  have hfound : rows.mapM (fun r => do
      let scope' := scope.bind row (table, r)
      let b ← selected.eval scope'
      let truth ← cond.eval session scope'
      pure (if truth = some true then Values.compare .eq v b else some false)) =
        some (rows.map compared) := by
    apply mapM_eq_some
    intro r hr
    obtain ⟨truth, heval, htrue⟩ := hcond r hr
    simp only [hkey r hr, heval, htrue, compared, Option.bind_eq_bind, Option.bind_some,
      Option.pure_def]
  refine ⟨(rows.map compared).foldr disj (some false), ?_, ?_, ?_⟩
  · simp only [Cond.eval, hc, hrows, Option.bind_eq_bind, Option.bind_some]
    simp only [Option.bind_eq_bind] at hfound
    rw [hfound]
    rfl
  · rw [List.foldr_map, foldr_disj_eq_true]
    simp only [List.any_eq_true, Bool.and_eq_true, decide_eq_true_eq]
    refine exists_congr fun r => and_congr_right fun _ => ?_
    cases h : holds r <;> simp [compared, h]
  · rw [List.foldr_map, foldr_disj_eq_false]
    simp only [List.all_eq_true, Bool.or_eq_true, decide_eq_true_eq, Bool.not_eq_true']
    refine forall_congr' fun r => imp_congr_right fun _ => ?_
    cases h : holds r <;> simp [compared, h]

end Decides

section Rows

variable {session} {β : Type} {items : List β} {inScope : β → Scope α κ τ S} {cond : Cond α κ τ}
  {holds : β → Bool} {order : List (Order α κ)}

theorem select_eq_some
    (h : ∀ i ∈ items, Accepts session (inScope i) cond (holds i)) :
    cond.select session (items.map inScope) = some ((items.filter holds).map inScope) := by
  apply filterM_map
  intro i hi
  obtain ⟨truth, heval, htrue⟩ := h i hi
  rw [heval, Option.map_some]
  congr 1
  rw [Bool.eq_iff_iff, decide_eq_true_eq, htrue]

/-- How rows are ordered by sort keys that are columns of theirs. -/
def rowsLe (order : List (Order α κ)) (r r' : κ → S) : Bool :=
  keysLe (order.map Order.descending) (order.map fun o => r o.column.column)
    (order.map fun o => r' o.column.column)

omit [DecidableEq α] in
theorem sortScopes_eq_some {row : β → κ → S}
    (hrow : ∀ i ∈ items, ∀ o ∈ order, o.column.eval (inScope i) = some (row i o.column.column)) :
    sortScopes order (items.map inScope) =
      some ((items.mergeSort fun i j => rowsLe order (row i) (row j)).map inScope) := by
  let keys (i : β) : List S := order.map fun o => row i o.column.column
  have hkeyed : (items.map inScope).mapM (fun scope => do
      let keys ← order.mapM fun o => o.column.eval scope
      pure (keys, scope)) = some (items.map fun i => (keys i, inScope i)) := by
    rw [List.mapM_map]
    apply mapM_eq_some
    intro i hi
    simp only [Function.comp_apply, mapM_eq_some (hrow i hi), keys, Option.bind_eq_bind,
      Option.bind_some, Option.pure_def]
  have hsort : (items.map fun i => (keys i, inScope i)).mergeSort
      (fun a b => keysLe (order.map Order.descending) a.1 b.1) =
        (items.mergeSort fun i j => rowsLe order (row i) (row j)).map
          fun i => (keys i, inScope i) := by
    symm
    apply List.map_mergeSort
    intro i _ j _
    rfl
  unfold sortScopes
  rw [hkeyed]
  simp only [Option.bind_eq_bind, Option.bind_some, Option.pure_def, hsort, List.map_map]
  rfl

end Rows

section Limits

variable {β γ : Type} {limit : Option ℕ} {l : List β}

theorem limited_map {f : β → γ} : limited limit (l.map f) = (limited limit l).map f := by
  cases limit with
  | none => rfl
  | some n => exact List.map_take.symm

theorem limited_sublist : (limited limit l).Sublist l := by
  cases limit with
  | none => exact List.Sublist.refl l
  | some n => exact List.take_sublist n l

theorem mem_of_mem_limited {b : β} (h : b ∈ limited limit l) : b ∈ l := limited_sublist.mem h

end Limits

section Order

omit [DecidableEq α]

variable {o : Order α κ} {order : List (Order α κ)} {r r' r'' : κ → S}

/-- Whether a sort key comes before another, or with it, in a direction. -/
def directed (descending : Bool) (a b : S) : Bool :=
  if descending then Values.le b a else Values.le a b

theorem rowsLe_cons : rowsLe (o :: order) r r' = true ↔
    directed o.descending (r o.column.column) (r' o.column.column) = true ∧
      (directed o.descending (r' o.column.column) (r o.column.column) = true →
        rowsLe order r r' = true) := by
  have hboth : ∀ p q rest : Bool,
      (if p && q then rest else p) = true ↔ p = true ∧ (q = true → rest = true) := by
    decide
  exact hboth _ _ _

variable [LawfulValues S]

theorem directed_total (descending : Bool) (a b : S) :
    directed descending a b = true ∨ directed descending b a = true := by
  cases descending
  · exact LawfulValues.le_total a b
  · exact LawfulValues.le_total b a

theorem directed_trans {descending : Bool} {a b c : S} (h : directed descending a b = true)
    (h' : directed descending b c = true) : directed descending a c = true := by
  cases descending
  · exact LawfulValues.le_trans a b c h h'
  · exact LawfulValues.le_trans c b a h' h

theorem rowsLe_total (order : List (Order α κ)) (r r' : κ → S) :
    rowsLe order r r' = true ∨ rowsLe order r' r = true := by
  induction order with
  | nil => exact Or.inl rfl
  | cons o order ih =>
    simp only [rowsLe_cons]
    rcases directed_total o.descending (r o.column.column) (r' o.column.column) with h | h
    · by_cases h' : directed o.descending (r' o.column.column) (r o.column.column) = true
      · exact ih.imp (fun hrest => ⟨h, fun _ => hrest⟩) fun hrest => ⟨h', fun _ => hrest⟩
      · exact Or.inl ⟨h, fun h'' => absurd h'' h'⟩
    · by_cases h' : directed o.descending (r o.column.column) (r' o.column.column) = true
      · exact ih.imp (fun hrest => ⟨h', fun _ => hrest⟩) fun hrest => ⟨h, fun _ => hrest⟩
      · exact Or.inr ⟨h, fun h'' => absurd h'' h'⟩

theorem rowsLe_trans (h : rowsLe order r r' = true) (h' : rowsLe order r' r'' = true) :
    rowsLe order r r'' = true := by
  induction order with
  | nil => rfl
  | cons o order ih =>
    obtain ⟨hle, hrest⟩ := rowsLe_cons.mp h
    obtain ⟨hle', hrest'⟩ := rowsLe_cons.mp h'
    refine rowsLe_cons.mpr ⟨directed_trans hle hle', fun hback => ?_⟩
    exact ih (hrest (directed_trans hle' hback)) (hrest' (directed_trans hback hle))

theorem pairwise_limited_mergeSort {β : Type} {items : List β} {row : β → κ → S}
    (limit : Option ℕ) (order : List (Order α κ)) :
    (limited limit (items.mergeSort fun i j => rowsLe order (row i) (row j))).Pairwise
      fun i j => rowsLe order (row i) (row j) = true := by
  refine (List.pairwise_mergeSort (fun i j k h h' => ?_) (fun i j => ?_) items).sublist
    limited_sublist
  · exact rowsLe_trans h h'
  · exact Bool.or_eq_true _ _ ▸ rowsLe_total order (row i) (row j)

end Order

section Subqueries

variable {session} {β : Type} {items : List β} {inScope : β → Scope α κ τ S}
  {source : From α κ τ} {cond : Cond α κ τ} {holds : β → Bool} {order : List (Order α κ)}
  {row : β → κ → S} {e : Expr α κ τ} {document : β → Json}

theorem table_eval {t : τ} {a : α} {rows : List (κ → S)} (h : session.rows t = some rows) :
    (From.table t a : From α κ τ).eval session scope =
      some (rows.map fun r => scope.bind a (t, r)) := by
  simp only [From.eval, h, Option.bind_eq_bind, Option.bind_some, Option.pure_def]

theorem joined_eval {t t' : τ} {a a' : α} {left right : Col α κ} {rows others : List (κ → S)}
    {key key' : (κ → S) × (κ → S) → S} (hrows : session.rows t = some rows)
    (hothers : session.rows t' = some others)
    (hleft : ∀ p, left.eval ((scope.bind a (t, p.1)).bind a' (t', p.2)) = some (key p))
    (hright : ∀ p, right.eval ((scope.bind a (t, p.1)).bind a' (t', p.2)) = some (key' p)) :
    (From.joined t a t' a' left right : From α κ τ).eval session scope =
      some (((rows.product others).filter fun p =>
        decide (Values.compare .eq (key p) (key' p) = some true)).map fun p =>
          (scope.bind a (t, p.1)).bind a' (t', p.2)) := by
  have hpairs : (rows.flatMap fun r => others.map fun o =>
      (scope.bind a (t, r)).bind a' (t', o)) = (rows.product others).map fun p =>
        (scope.bind a (t, p.1)).bind a' (t', p.2) := by
    rw [List.product, List.map_flatMap]
    simp only [List.map_map]
    rfl
  simp only [From.eval, hrows, hothers, Option.bind_eq_bind, Option.bind_some, hpairs]
  apply filterM_map
  intro p _
  simp only [hleft p, hright p, Option.bind_some, Option.pure_def]

theorem first_eval (hsource : source.eval session scope = some (items.map inScope))
    (hcond : ∀ i ∈ items, Accepts session (inScope i) cond (holds i))
    (hrow : ∀ i ∈ items, ∀ o ∈ order, o.column.eval (inScope i) = some (row i o.column.column))
    (he : ∀ i ∈ items, e.eval session (inScope i) = some (document i)) :
    (Expr.first e source cond order).eval session scope =
      some (((items.filter holds).mergeSort fun i j =>
        rowsLe order (row i) (row j)).head?.elim .null document) := by
  have hselected : ∀ i ∈ items.filter holds, i ∈ items := fun _ hi => List.mem_of_mem_filter hi
  have hsort := sortScopes_eq_some fun i hi => hrow i (hselected i hi)
  simp only [Expr.eval, hsource, select_eq_some hcond, hsort, Option.bind_eq_bind,
    Option.bind_some]
  cases hsorted : (items.filter holds).mergeSort fun i j => rowsLe order (row i) (row j) with
  | nil => rfl
  | cons i rest =>
    have hi : i ∈ items.filter holds :=
      List.mem_mergeSort.mp (hsorted ▸ List.mem_cons_self)
    exact he i (hselected i hi)

theorem fold_eval {fold : Fold α κ} (hsource : source.eval session scope = some (items.map inScope))
    (hcond : ∀ i ∈ items, Accepts session (inScope i) cond (holds i)) :
    (Expr.fold fold source cond).eval session scope =
      fold.eval ((items.filter holds).map inScope) := by
  simp only [Expr.eval, hsource, select_eq_some hcond, Option.bind_eq_bind, Option.bind_some]

theorem rows_eval {s : Select α κ τ} {bound : β → Bound κ τ S}
    (hsource : s.source.eval session scope = some (items.map inScope))
    (hcond : ∀ i ∈ items, Accepts session (inScope i) s.cond (holds i))
    (hrow : ∀ i ∈ items, ∀ o ∈ s.order, o.column.eval (inScope i) = some (row i o.column.column))
    (hbound : ∀ i ∈ items, inScope i s.row = some (bound i)) :
    s.eval session scope = some ((limited s.limit ((items.filter holds).mergeSort
      fun i j => rowsLe s.order (row i) (row j))).map bound) := by
  have hselected : ∀ i ∈ items.filter holds, i ∈ items := fun _ hi => List.mem_of_mem_filter hi
  have hsort := sortScopes_eq_some fun i hi => hrow i (hselected i hi)
  simp only [Select.eval, hsource, select_eq_some hcond, hsort, Option.bind_eq_bind,
    Option.bind_some, limited_map, List.mapM_map]
  apply mapM_eq_some
  intro i hi
  exact hbound i (hselected i (List.mem_mergeSort.mp (mem_of_mem_limited hi)))

theorem array_eval {s : Select α κ τ} {a : α} {bounds : List (Bound κ τ S)}
    {document : (κ → S) → Json} (hrows : s.eval session scope = some bounds)
    (horder : ∀ o ∈ order, o.column.row = a)
    (hsorted : bounds.Pairwise fun b b' => rowsLe order b.2 b'.2 = true)
    (he : ∀ b ∈ bounds, e.eval session (scope.bind a b) = some (document b.2)) :
    (Expr.array e s a order).eval session scope =
      some (.array (bounds.map fun b => document b.2)) := by
  have hkeys : ∀ b ∈ bounds, ∀ o ∈ order,
      o.column.eval (scope.bind a b) = some (b.2 o.column.column) := by
    intro b _ o ho
    simp [Col.eval, horder o ho]
  have hsort := sortScopes_eq_some hkeys
  rw [List.mergeSort_of_pairwise hsorted] at hsort
  simp only [Expr.eval, hrows, hsort, Option.bind_eq_bind, Option.bind_some, List.mapM_map]
  have hitems : bounds.mapM ((fun scope' => e.eval session scope') ∘ scope.bind a) =
      some (bounds.map fun b => document b.2) := mapM_eq_some he
  rw [hitems]
  rfl

end Subqueries

section Pairs

variable {session} {pairs : List (String × Expr α κ τ)} {fields : List (String × Json)}

theorem flatten_toChunks {β : Type} (n : ℕ) (l : List β) : (l.toChunks n).flatten = l := by
  have hgo : ∀ (m : ℕ) (l : List β) (acc : Array β) (chunks : Array (List β)),
      (List.toChunks.go m l acc chunks).flatten = chunks.toList.flatten ++ acc.toList ++ l := by
    intro m l
    induction l with
    | nil => intro acc chunks; simp [List.toChunks.go]
    | cons b l ih =>
      intro acc chunks
      rw [List.toChunks.go]
      split
      · rw [ih]; simp
      · rw [ih]; simp
  match n, l with
  | _, [] => cases n <;> rfl
  | 0, b :: l => simp [List.toChunks]
  | n + 1, b :: l => simp [List.toChunks, hgo]

/-- Laid over one another, the objects of the chunks are the object of the pairs. -/
theorem merged_eval {size : ℕ} (h : evalPairs session pairs scope = some fields) :
    (Expr.merged size pairs : Expr α κ τ).eval session scope =
      some (.object (Json.ofPairs fields)) := by
  simp only [Expr.eval, h, Option.bind_eq_bind, Option.bind_some, Option.pure_def,
    Json.foldl_merge_ofPairs, flatten_toChunks]

theorem object_eval (h : evalPairs session pairs scope = some fields) :
    (Expr.object pairs : Expr α κ τ).eval session scope = some (.object (Json.ofPairs fields)) := by
  simp only [Expr.eval, h, Option.bind_eq_bind, Option.bind_some, Option.pure_def]

end Pairs

end Sql
