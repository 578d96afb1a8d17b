import CurvePlot.Proofs.Expr.Prefixes

/-!
# The language of the reader

The reader accepts what the grammar derives within the limits, and gives the derived tree.
Since the reader gives one tree and any derivation fits in some limits, the grammar is
unambiguous: no list of tokens has two trees.
-/

namespace CurvePlot

namespace Expr

open Token (Kind)

variable {limits : Limits}

/-! ### One tree for each list of tokens -/

/-- A tree has no chain that is deeper than the tree. -/
theorem chainsWithin_of_depth_le {t : Expr} {d : Nat} (h : t.depth ≤ d) : t.ChainsWithin d := by
  induction t with
  | const _ | var | named _ => trivial
  | unary op a ih =>
    simp only [depth] at h
    exact ih (by omega)
  | binary op a b iha ihb =>
    refine ⟨fun _ => h, ?_⟩
    simp only [depth] at h
    exact ⟨iha (by omega), ihb (by omega)⟩

/-- Any two derivations fit in common limits. -/
theorem exists_fitsIn (levels : List Nat) (t : Expr) (levels' : List Nat) (t' : Expr) :
    ∃ limits : Limits, 1 ≤ limits.nesting ∧ FitsIn limits levels t ∧
      FitsIn limits levels' t' := by
  have nesting : ∀ l ∈ levels ++ levels', l ≤ (levels ++ levels').max?.getD 0 + 1 :=
    fun l hl => Nat.le_succ_of_le (List.le_max?_getD_of_mem hl)
  rw [List.forall_mem_append] at nesting
  exact ⟨⟨(levels ++ levels').max?.getD 0 + 1, max t.depth t'.depth⟩, Nat.le_add_left _ _,
    ⟨nesting.1, chainsWithin_of_depth_le (Nat.le_max_left _ _)⟩,
    ⟨nesting.2, chainsWithin_of_depth_le (Nat.le_max_right _ _)⟩⟩

/-- What is derived within the limits is read. -/
theorem Derives.ofTokens_eq_ok {tokens : List Token} {t : Expr} {levels : List Nat}
    (h : Derives .sum 1 (tokens.map Token.kind) t levels) (hn : 1 ≤ limits.nesting)
    (fits : FitsIn limits levels t) : ofTokensWithin limits tokens = .ok t :=
  (h.outcome_ofTokens hn).eq_ok fits

/-- **The grammar is unambiguous.** -/
theorem Derives.unique {kinds : List Kind} {t t' : Expr} {levels levels' : List Nat}
    (h : Derives .sum 1 kinds t levels) (h' : Derives .sum 1 kinds t' levels') : t = t' := by
  obtain ⟨limits, hn, fits, fits'⟩ := exists_fitsIn levels t levels' t'
  -- columns play no part, so any will do
  have hkinds : (kinds.map (Token.mk · 0)).map Token.kind = kinds := by
    rw [List.map_map]
    exact List.map_id kinds
  rw [← hkinds] at h h'
  exact Except.ok.inj ((h.ofTokens_eq_ok hn fits).symm.trans (h'.ofTokens_eq_ok hn fits'))

/-! ### What is accepted -/

/-- The tree that the reader gives is derived, within the limits of the reader. -/
theorem exists_derives_of_ofTokens {tokens : List Token} {t : Expr} (hn : 1 ≤ limits.nesting)
    (h : ofTokensWithin limits tokens = .ok t) :
    ∃ levels, Derives .sum 1 (tokens.map Token.kind) t levels ∧ FitsIn limits levels t := by
  obtain ⟨levels, hd⟩ := derives_of_ofTokens h
  refine ⟨levels, hd, ?_⟩
  -- had the derivation broken a limit, there would have been an error
  have outcome := hd.outcome_ofTokens hn
  rw [h] at outcome
  cases outcome
  assumption

/-- **The language of the reader.** A list of tokens is read as a tree exactly if the grammar
derives the tree from it, with no operand at a level above 256 and no sum, difference, product
or quotient that is deeper than 1024; the grammar derives no other tree from it. If the grammar
derives a tree that breaks a limit, the reader says that the formula is too deep and names a
limit that is broken. -/
theorem ofTokens_iff_derives (tokens : List Token) (t : Expr) :
    (ofTokens tokens = .ok t ↔
      ∃ levels, Derives .sum 1 (tokens.map Token.kind) t levels ∧
        (∀ l ∈ levels, l ≤ 256) ∧ t.ChainsWithin 1024) ∧
    (∀ levels t' levels', Derives .sum 1 (tokens.map Token.kind) t levels →
      Derives .sum 1 (tokens.map Token.kind) t' levels' → t' = t) ∧
    ∀ levels, Derives .sum 1 (tokens.map Token.kind) t levels →
      ¬((∀ l ∈ levels, l ≤ 256) ∧ t.ChainsWithin 1024) →
      (ofTokens tokens = .error (.tooDeep 256) ∧ ∃ l ∈ levels, 256 < l) ∨
        (ofTokens tokens = .error (.tooDeep 1024) ∧ ¬t.ChainsWithin 1024) := by
  refine ⟨⟨fun h => ?_, ?_⟩, fun levels t' levels' h h' => h'.unique h, fun levels h broken => ?_⟩
  · obtain ⟨levels, hd, fits⟩ := exists_derives_of_ofTokens (by decide) h
    exact ⟨levels, hd, fits.level_le, fits.chains⟩
  · rintro ⟨levels, hd, nesting, chains⟩
    exact hd.ofTokens_eq_ok (by decide) ⟨nesting, chains⟩
  · have outcome : Outcome .standard levels t (ofTokens tokens) t := h.outcome_ofTokens (by decide)
    generalize ofTokens tokens = r at outcome
    cases outcome with
    | fits fits => exact absurd ⟨fits.level_le, fits.chains⟩ broken
    | tooNested deep => exact .inl ⟨rfl, deep⟩
    | tooLong deep => exact .inr ⟨rfl, deep⟩

end Expr

end CurvePlot
