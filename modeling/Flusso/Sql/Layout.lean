import Flusso.Sql.Spelling

/-! # The layout of a query's pieces

Whatever the query, its fixed pieces keep the others apart, and the parentheses they
open are closed in turn.
-/

namespace Sql

variable {α κ τ : Type}

section Layout

variable {spelling : Spelling α κ τ}

theorem Comparison.written (op : Comparison) : (op.piece : Piece κ).written = true := by
  cases op <;> rfl

theorem Comparison.clean (op : Comparison) : (op.piece : Piece κ).clean = true := by
  cases op <;> rfl

theorem Comparison.delimits (op : Comparison) : (op.piece : Piece κ).delimits = true := by
  cases op <;> rfl

section Atoms

variable {ps : List (Piece κ)} {text : String} {tokens : List Token}

theorem Spaced.col (c : Col α κ) (hapart : startsApart text = true) :
    Spaced (c.piece spelling :: .fixed text tokens :: ps) ↔ Spaced (.fixed text tokens :: ps) :=
  Spaced.cons_delimited rfl hapart

theorem Spaced.row (a : α) (hapart : startsApart text = true) :
    Spaced (spelling.rowPiece a :: .fixed text tokens :: ps) ↔
      Spaced (.fixed text tokens :: ps) :=
  Spaced.cons_delimited rfl hapart

theorem Spaced.table (t : τ) (hapart : startsApart text = true) :
    Spaced (spelling.tablePiece t :: .fixed text tokens :: ps) ↔
      Spaced (.fixed text tokens :: ps) :=
  Spaced.cons_delimited rfl hapart

theorem Spaced.param (c : κ) (p : Param) (hapart : startsApart text = true) :
    Spaced (.param c p :: .fixed text tokens :: ps) ↔ Spaced (.fixed text tokens :: ps) :=
  Spaced.cons_delimited rfl hapart

theorem Spaced.append_close : Spaced (ps ++ [close]) ↔ Spaced ps := by
  rw [close, Spaced.append_fixed (by decide)]
  exact and_iff_left (.single rfl)

theorem Spaced.col_single (c : Col α κ) : Spaced [c.piece spelling] := .single rfl

theorem Spaced.row_single (a : α) : Spaced [spelling.rowPiece a] := .single rfl

theorem Spaced.param_single (c : κ) (p : Param) : Spaced [.param c p] := .single rfl

theorem Spaced.fixed_single (hfits : fits text tokens = true) :
    Spaced [(.fixed text tokens : Piece κ)] :=
  .single hfits

end Atoms

theorem Cond.spaced (cond : Cond α κ τ) : Spaced (cond.pieces spelling) := by
  induction cond with
  | always => exact .single rfl
  | compare op c operand =>
    rw [Cond.pieces, Spaced.cons_delimited rfl op.delimits, Spaced.cons_clean op.written op.clean]
    cases operand <;> exact .single rfl
  | within negated c params =>
    have hparams : Spaced (joined comma (params.map fun p => [Piece.param c.column p])) := by
      apply Spaced.joined rfl rfl rfl
      rintro part hpart
      obtain ⟨p, -, rfl⟩ := List.mem_map.mp hpart
      exact .single rfl
    cases negated <;> simp (disch := decide) only [Cond.pieces, Spaced.col, Spaced.fixed,
      Spaced.append_close, hparams, reduceIte, Bool.false_eq_true]
  | between c lower upper =>
    simp (disch := decide) only [Cond.pieces, Spaced.col, Spaced.fixed, Spaced.param,
      Spaced.param_single]
  | isNull negated c =>
    cases negated <;> simp (disch := decide) only [Cond.pieces, Spaced.col, Spaced.fixed_single,
      reduceIte, Bool.false_eq_true]
  | marked c =>
    simp (disch := decide) only [Cond.pieces, Spaced.col, Spaced.fixed, Spaced.fixed_single]
  | raw text => exact .single rfl
  | inSelect c selected table row cond ih =>
    simp (disch := decide) only [Cond.pieces, Spaced.col, Spaced.table, Spaced.row, Spaced.fixed,
      Spaced.append_close, ih]
  | and a b iha ihb =>
    simp (disch := decide) only [Cond.pieces, Spaced.append_fixed, Spaced.fixed, iha, ihb,
      and_self]
  | paren a ih =>
    simp (disch := decide) only [Cond.pieces, Spaced.fixed, Spaced.append_close, ih]
  | not a ih => simp (disch := decide) only [Cond.pieces, Spaced.fixed, ih]

theorem From.spaced (source : From α κ τ) : Spaced (source.pieces spelling) := by
  cases source <;> simp (disch := decide) only [From.pieces, Spaced.table, Spaced.row, Spaced.col,
    Spaced.fixed, Spaced.row_single, Spaced.col_single]

section Order

variable {rest : List (Piece κ)}

theorem Order.spaced (o : Order α κ) : Spaced (o.pieces spelling) := by
  cases hdesc : o.descending <;> simp (disch := decide) only [Order.pieces, hdesc, Spaced.col,
    Spaced.fixed_single, reduceIte, Bool.false_eq_true]

theorem apart_orderPieces {order : List (Order α κ)} (h : Apart rest) :
    Apart (orderPieces spelling order rest) := by
  unfold orderPieces
  split
  · exact h
  · exact apart_cons rfl

theorem spaced_orderPieces (order : List (Order α κ)) (hapart : Apart rest) (h : Spaced rest) :
    Spaced (orderPieces spelling order rest) := by
  unfold orderPieces
  split
  · exact h
  · have hkeys : Spaced (joined comma (order.map (Order.pieces spelling))) := by
      apply Spaced.joined rfl rfl rfl
      rintro part hpart
      obtain ⟨o, -, rfl⟩ := List.mem_map.mp hpart
      exact o.spaced
    rw [Spaced.fixed (by decide) (by decide), Spaced.append_apart hapart]
    exact ⟨hkeys, h⟩

end Order

theorem limitPieces_spaced (limit : Option ℕ) : Spaced (limitPieces limit : List (Piece κ)) := by
  cases limit with
  | none => exact .nil
  | some n =>
    rw [limitPieces, Spaced.fixed (by decide) (by decide)]
    exact .single rfl

theorem limitPieces_apart (limit : Option ℕ) : Apart (limitPieces limit : List (Piece κ)) := by
  cases limit with
  | none => exact apart_nil
  | some n => exact apart_cons rfl

theorem Select.spaced (s : Select α κ τ) : Spaced (s.pieces spelling) := by
  have hcolumns : ∀ rest : List (Piece κ),
      Spaced (.columns (spelling.row s.row) :: .fixed " FROM " [.word "FROM"] :: rest) ↔
        Spaced (.fixed " FROM " [.word "FROM"] :: rest) :=
    fun _ => Spaced.cons_delimited rfl rfl
  have hend : Spaced (orderPieces spelling s.order (limitPieces s.limit)) :=
    spaced_orderPieces s.order (limitPieces_apart s.limit) (limitPieces_spaced s.limit)
  simp (disch := decide) only [Select.pieces, hcolumns, Spaced.fixed, Spaced.append_fixed,
    Spaced.append_apart (apart_orderPieces (limitPieces_apart s.limit)), From.spaced, Cond.spaced,
    hend, and_self]

theorem Scalar.spaced (s : Scalar α κ) : Spaced (s.pieces spelling) := by
  induction s with
  | column c => exact .col_single c
  | lower s ih | trim s ih =>
    simp (disch := decide) only [Scalar.pieces, Spaced.fixed, Spaced.append_close, ih]
  | coalesce s literal ih =>
    have hliteral : Spaced [(.literal literal : Piece κ), close] :=
      (Spaced.cons_delimited rfl rfl).mpr (.single rfl)
    rw [Scalar.pieces, Spaced.fixed (by decide) (by decide), Spaced.append rfl,
      Spaced.cons_clean rfl rfl]
    exact ⟨ih, hliteral⟩

theorem Fold.spaced (fold : Fold α κ) : Spaced (fold.pieces spelling) := by
  have hcall (c : Col α κ) : Spaced [c.piece spelling, close] :=
    (Spaced.cons_delimited rfl rfl).mpr (.single rfl)
  cases fold with
  | count | null => exact .single rfl
  | sum c | avg c | min c | max c =>
    simp (disch := decide) only [Fold.pieces, Spaced.fixed, hcall]
  | collect c =>
    simp (disch := decide) only [Fold.pieces, Spaced.fixed, Spaced.col, Spaced.nil]

theorem spaced_objectCall {function : String} {pairs : List (List (Piece κ))}
    (hfits : fits (function ++ "(") [.word function, .symbol '('] = true)
    (hclean : endsClean (function ++ "(") = true) (h : ∀ part ∈ pairs, Spaced part) :
    Spaced (objectCall function pairs) := by
  rw [objectCall, Spaced.fixed hfits hclean, Spaced.append_close]
  exact Spaced.joined rfl rfl rfl h

mutual

theorem Expr.spaced : (e : Expr α κ τ) → Spaced (e.pieces spelling)
  | .scalar s => s.spaced
  | .literal text => .single rfl
  | .null => .single rfl
  | .unlessNull first second e => by
    simp (disch := decide) only [Expr.pieces, Spaced.fixed, Spaced.col, Spaced.append_fixed,
      Spaced.fixed_single, e.spaced, and_self]
  | .object pairs => spaced_objectCall (by decide) (by decide) (pairPieces_spaced pairs)
  | .merged size pairs => by
    rw [Expr.pieces, Spaced.fixed (by decide) (by decide), Spaced.append_close]
    apply Spaced.joined rfl rfl rfl
    rintro part hpart
    obtain ⟨chunk, hchunk, rfl⟩ := List.mem_map.mp hpart
    apply spaced_objectCall (by decide) (by decide)
    intro part hpart
    apply pairPieces_spaced pairs part
    rw [← flatten_toChunks size (pairPieces spelling pairs)]
    exact List.mem_flatten_of_mem hchunk hpart
  | .first e source cond order => by
    have hend : Spaced (orderPieces spelling order
        [.fixed " LIMIT 1)" [.word "LIMIT", .number "1", .symbol ')']]) :=
      spaced_orderPieces order (apart_cons rfl) (.single rfl)
    have hapart : Apart (orderPieces spelling order
        [.fixed " LIMIT 1)" [.word "LIMIT", .number "1", .symbol ')']]) :=
      apart_orderPieces (apart_cons rfl)
    simp (disch := decide) only [Expr.pieces, Spaced.fixed, Spaced.append_fixed,
      Spaced.append_apart hapart, e.spaced, source.spaced, cond.spaced, hend, and_self]
  | .fold fold source cond => by
    simp (disch := decide) only [Expr.pieces, Spaced.fixed, Spaced.append_fixed,
      Spaced.append_close, fold.spaced, source.spaced, cond.spaced, and_self]
  | .array e rows derived order => by
    have hrows : Spaced (.fixed "), '[]'::json) FROM ("
        [.symbol ')', .symbol ',', .literal "[]", .cast, .word "json", .symbol ')', .word "FROM",
          .symbol '('] :: (rows.pieces spelling ++
      [.fixed ") AS " [.symbol ')', .word "AS"], spelling.rowPiece derived, close])) := by
      have hderived : Spaced [spelling.rowPiece derived, close] :=
        (Spaced.cons_delimited rfl rfl).mpr (.single rfl)
      simp (disch := decide) only [Spaced.fixed, Spaced.append_fixed, rows.spaced, hderived,
        and_self]
    rw [Expr.pieces, Spaced.fixed (by decide) (by decide),
      Spaced.append_apart (apart_orderPieces (apart_cons rfl))]
    exact ⟨e.spaced, spaced_orderPieces order (apart_cons rfl) hrows⟩

theorem pairPieces_spaced : (pairs : List (String × Expr α κ τ)) →
    ∀ part ∈ pairPieces spelling pairs, Spaced part
  | [] => nofun
  | (key, e) :: pairs => by
    rintro part hpart
    rcases List.mem_cons.mp hpart with rfl | hpart
    · rw [Spaced.cons_delimited rfl rfl, Spaced.cons_clean rfl rfl]
      exact e.spaced
    · exact pairPieces_spaced pairs part hpart

end

end Layout

section Nesting

variable {spelling : Spelling α κ τ} {ps : List (Piece κ)}

theorem nested_single {p : Piece κ} (h : p.frame = []) : Nested [p] := by
  intro d
  rw [depth_skeleton_cons h]
  rfl

theorem depth_skeleton_close (d : ℕ) :
    depth (d + 1) (skeleton (close :: ps)) = depth d (skeleton ps) := by
  rw [close, depth_skeleton_fixed]
  rfl

theorem depth_comma (d : ℕ) : depth d (comma : Piece κ).frame = some d := rfl

theorem depth_skeleton_closed (h : Nested ps) (qs : List (Piece κ)) (d : ℕ) :
    depth (d + 1) (skeleton (ps ++ close :: qs)) = depth d (skeleton qs) := by
  rw [depth_skeleton_append h, depth_skeleton_close]

theorem Cond.nested (cond : Cond α κ τ) : Nested (cond.pieces spelling) := by
  induction cond with
  | always => exact fun _ => rfl
  | compare op c operand => cases op <;> cases operand <;> exact fun _ => rfl
  | within negated c params =>
    have hparams : Nested (joined comma (params.map fun p => [Piece.param c.column p])) := by
      apply Nested.joined depth_comma
      rintro part hpart
      obtain ⟨p, -, rfl⟩ := List.mem_map.mp hpart
      exact nested_single rfl
    intro d
    cases negated <;> exact depth_skeleton_closed hparams [] d
  | between => exact fun _ => rfl
  | isNull negated c => cases negated <;> exact fun _ => rfl
  | marked => exact fun _ => rfl
  | raw => exact fun _ => rfl
  | inSelect c selected table row cond ih => exact depth_skeleton_closed ih []
  | and a b iha ihb =>
    intro d
    rw [Cond.pieces, depth_skeleton_append iha]
    exact ihb d
  | paren a ih => exact depth_skeleton_closed ih []
  | not a ih => exact ih

theorem From.nested (source : From α κ τ) : Nested (source.pieces spelling) := by
  cases source <;> exact fun _ => rfl

theorem depth_orderPieces (order : List (Order α κ)) (rest : List (Piece κ)) (d : ℕ) :
    depth d (skeleton (orderPieces spelling order rest)) = depth d (skeleton rest) := by
  unfold orderPieces
  split
  · rfl
  · have hkeys : Nested (joined comma (order.map (Order.pieces spelling))) := by
      apply Nested.joined depth_comma
      rintro part hpart
      obtain ⟨o, -, rfl⟩ := List.mem_map.mp hpart
      intro d
      cases hdesc : o.descending <;> simp only [Order.pieces, hdesc] <;> rfl
    exact depth_skeleton_append hkeys d

theorem Select.nested (s : Select α κ τ) : Nested (s.pieces spelling) := by
  have hlimit : Nested (limitPieces s.limit : List (Piece κ)) := by
    cases s.limit <;> exact fun _ => rfl
  intro d
  calc depth d (skeleton (s.pieces spelling))
      = depth d (skeleton (s.source.pieces spelling ++ .fixed " WHERE " [.word "WHERE"] ::
          (s.cond.pieces spelling ++
            orderPieces spelling s.order (limitPieces s.limit)))) := rfl
    _ = depth d (skeleton (s.cond.pieces spelling ++
          orderPieces spelling s.order (limitPieces s.limit))) :=
        depth_skeleton_append s.source.nested d
    _ = some d := by rw [depth_skeleton_append s.cond.nested, depth_orderPieces, hlimit d]

theorem Scalar.nested (s : Scalar α κ) : Nested (s.pieces spelling) := by
  induction s with
  | column c => exact nested_single rfl
  | lower s ih | trim s ih => exact depth_skeleton_closed ih []
  | coalesce s literal ih => exact fun d => depth_skeleton_append ih (d + 1)

theorem Fold.nested (fold : Fold α κ) : Nested (fold.pieces spelling) := by
  cases fold <;> exact fun _ => rfl

theorem nested_objectCall {function : String} {pairs : List (List (Piece κ))}
    (h : ∀ part ∈ pairs, Nested part) : Nested (objectCall function pairs) :=
  depth_skeleton_closed (Nested.joined depth_comma h) []

mutual

theorem Expr.nested : (e : Expr α κ τ) → Nested (e.pieces spelling)
  | .scalar s => s.nested
  | .literal text => nested_single rfl
  | .null => fun _ => rfl
  | .unlessNull first second e => depth_skeleton_append e.nested
  | .object pairs => nested_objectCall (nested_pairPieces pairs)
  | .merged size pairs => by
    refine depth_skeleton_closed (Nested.joined (fun _ => rfl) ?_) []
    rintro part hpart
    obtain ⟨chunk, hchunk, rfl⟩ := List.mem_map.mp hpart
    apply nested_objectCall
    intro part hpart
    apply nested_pairPieces pairs part
    rw [← flatten_toChunks size (pairPieces spelling pairs)]
    exact List.mem_flatten_of_mem hchunk hpart
  | .first e source cond order => by
    intro d
    have hend : depth (d + 1) (skeleton (cond.pieces spelling ++ orderPieces spelling order
        [.fixed " LIMIT 1)" [.word "LIMIT", .number "1", .symbol ')']])) = some d := by
      rw [depth_skeleton_append cond.nested, depth_orderPieces]
      rfl
    exact (depth_skeleton_append e.nested (d + 1)).trans
      ((depth_skeleton_append source.nested (d + 1)).trans hend)
  | .fold fold source cond => by
    intro d
    exact (depth_skeleton_append fold.nested (d + 1)).trans
      ((depth_skeleton_append source.nested (d + 1)).trans
        (depth_skeleton_closed cond.nested [] d))
  | .array e rows derived order => by
    intro d
    -- Three parentheses stand open before the expression, one of them again around the rows.
    have hrows : depth (d + 2) (skeleton (rows.pieces spelling ++
        [.fixed ") AS " [.symbol ')', .word "AS"], spelling.rowPiece derived, close])) =
        some d := depth_skeleton_append rows.nested (d + 2)
    exact (depth_skeleton_append e.nested (d + 3)).trans
      ((depth_orderPieces order _ (d + 3)).trans hrows)

theorem nested_pairPieces : (pairs : List (String × Expr α κ τ)) →
    ∀ part ∈ pairPieces spelling pairs, Nested part
  | [] => nofun
  | (key, e) :: pairs => by
    rintro part hpart
    rcases List.mem_cons.mp hpart with rfl | hpart
    · exact e.nested
    · exact nested_pairPieces pairs part hpart

end

end Nesting

section Slots

variable {spelling : Spelling α κ τ} {ps : List (Piece κ)}

@[simp] theorem slots_nil : slots ([] : List (Piece κ)) = [] := rfl

@[simp] theorem slots_fixed (text : String) (tokens : List Token) :
    slots (.fixed text tokens :: ps) = slots ps := rfl

@[simp] theorem slots_comma : slots (comma :: ps) = slots ps := rfl

@[simp] theorem slots_close : slots (close :: ps) = slots ps := rfl

@[simp] theorem slots_literal (text : String) : slots (.literal text :: ps) = slots ps := rfl

@[simp] theorem slots_columns (row : String) : slots (.columns row :: ps) = slots ps := rfl

@[simp] theorem slots_col (c : Col α κ) : slots (c.piece spelling :: ps) = slots ps := rfl

@[simp] theorem slots_row (a : α) : slots (spelling.rowPiece a :: ps) = slots ps := rfl

@[simp] theorem slots_table (t : τ) : slots (spelling.tablePiece t :: ps) = slots ps := rfl

@[simp] theorem slots_param (c : κ) (p : Param) :
    slots (.param c p :: ps) = (c, p) :: slots ps := rfl

@[simp] theorem slots_joined_comma (parts : List (List (Piece κ))) :
    slots (joined comma parts) = parts.flatMap slots :=
  slots_joined rfl

@[simp] theorem slots_within (negated : Bool) (c : Col α κ) (params : List Param) :
    slots ((Cond.within negated c params : Cond α κ τ).pieces spelling) =
      params.map fun p => (c.column, p) := by
  have hparams : slots (joined comma (params.map fun p => [Piece.param c.column p])) =
      params.map fun p => (c.column, p) := by
    rw [slots_joined_comma, List.flatMap_map]
    exact List.flatMap_pure_eq_map _ _
  cases negated <;> simp [Cond.pieces, slots_append, hparams]

@[simp] theorem slots_and (a b : Cond α κ τ) : slots ((Cond.and a b).pieces spelling) =
    slots (a.pieces spelling) ++ slots (b.pieces spelling) := by
  simp [Cond.pieces, slots_append]

@[simp] theorem slots_paren (a : Cond α κ τ) :
    slots ((Cond.paren a).pieces spelling) = slots (a.pieces spelling) := by
  simp [Cond.pieces, slots_append]

@[simp] theorem slots_not (a : Cond α κ τ) :
    slots ((Cond.not a).pieces spelling) = slots (a.pieces spelling) := rfl

@[simp] theorem slots_marked (c : Col α κ) :
    slots ((Cond.marked c : Cond α κ τ).pieces spelling) = [] := rfl

@[simp] theorem slots_inSelect (c selected : Col α κ) (table : τ) (row : α)
    (cond : Cond α κ τ) : slots ((Cond.inSelect c selected table row cond).pieces spelling) =
      slots (cond.pieces spelling) := by
  simp [Cond.pieces, slots_append]

@[simp] theorem slots_from (source : From α κ τ) : slots (source.pieces spelling) = [] := by
  cases source <;> rfl

@[simp] theorem slots_orderPieces (order : List (Order α κ)) (rest : List (Piece κ)) :
    slots (orderPieces spelling order rest) = slots rest := by
  have hkey (o : Order α κ) : slots (o.pieces spelling) = [] := by
    cases hdesc : o.descending <;> simp [Order.pieces, hdesc]
  unfold orderPieces
  split
  · rfl
  · simp [slots_append, List.flatMap_map, hkey]

@[simp] theorem slots_select (s : Select α κ τ) :
    slots (s.pieces spelling) = slots (s.cond.pieces spelling) := by
  have hlimit : slots (limitPieces s.limit : List (Piece κ)) = [] := by cases s.limit <;> rfl
  simp [Select.pieces, slots_append, hlimit]

@[simp] theorem slots_scalar (s : Scalar α κ) : slots (s.pieces spelling) = [] := by
  induction s with
  | column c => rfl
  | lower s ih | trim s ih | coalesce s literal ih => simp [Scalar.pieces, slots_append, ih]

@[simp] theorem slots_fold (fold : Fold α κ) : slots (fold.pieces spelling) = [] := by
  cases fold <;> rfl

@[simp] theorem slots_exprFirst (e : Expr α κ τ) (source : From α κ τ) (cond : Cond α κ τ)
    (order : List (Order α κ)) : slots ((Expr.first e source cond order).pieces spelling) =
      slots (e.pieces spelling) ++ slots (cond.pieces spelling) := by
  simp [Expr.pieces, slots_append]

@[simp] theorem slots_exprFold (fold : Fold α κ) (source : From α κ τ) (cond : Cond α κ τ) :
    slots ((Expr.fold fold source cond).pieces spelling) = slots (cond.pieces spelling) := by
  simp [Expr.pieces, slots_append]

@[simp] theorem slots_exprArray (e : Expr α κ τ) (rows : Select α κ τ) (derived : α)
    (order : List (Order α κ)) : slots ((Expr.array e rows derived order).pieces spelling) =
      slots (e.pieces spelling) ++ slots (rows.cond.pieces spelling) := by
  simp [Expr.pieces, slots_append]

theorem slots_objectCall (function : String) (pairs : List (List (Piece κ))) :
    slots (objectCall function pairs) = pairs.flatMap slots := by
  simp [objectCall, slots_append]

end Slots

end Sql
