import Httb.Foundation.Splitting

/-!
# Blocks of Lines

Lines that end in a common line end, closed by an empty line, with a body behind them: the
layout of a message head or of a mail part. The first element of the line end does not
occur in the lines, and no line is empty.

## Main facts

- `block_injective`: the text of a block has one reading
- `readBlock_block`: the reader finds it
-/

namespace Httb.Foundation

variable {α : Type*} {d : α} {eol : List α}

/-- The lines, an empty line, and the body. -/
def block (eol : List α) (lines : List (List α)) (body : List α) : List α :=
  lines.flatMap (fun line => line ++ eol) ++ (eol ++ body)

/-- What may stand as a line before a line end that begins with `d`. -/
structure IsLine (d : α) (line : List α) : Prop where
  ne_nil : line ≠ []
  no_end : d ∉ line

theorem block_nil (eol : List α) (body : List α) : block eol [] body = eol ++ body := rfl

theorem block_cons (eol line : List α) (lines : List (List α)) (body : List α) :
    block eol (line :: lines) body = line ++ (eol ++ block eol lines body) := by
  simp only [block, List.flatMap_cons, List.append_assoc]

theorem block_append (eol : List α) (lines : List (List α)) (body tail : List α) :
    block eol lines body ++ tail = block eol lines (body ++ tail) := by
  simp only [block, List.append_assoc]

/-- A line is not mistaken for the empty line that closes the block. -/
theorem block_nil_ne_block_cons {line : List α} (h : IsLine d line) (lines : List (List α))
    (body body' : List α) : block (d :: eol) [] body ≠ block (d :: eol) (line :: lines) body' := by
  intro heq
  rw [block_nil, block_cons] at heq
  obtain ⟨c, rest, rfl⟩ := List.exists_cons_of_ne_nil h.ne_nil
  have hc : d = c := (List.cons.inj heq).1
  exact h.no_end (by rw [hc]; exact List.mem_cons_self)

/-- **A block has one reading**: its lines and its body are determined by its text. -/
theorem block_injective [DecidableEq α] {lines lines' : List (List α)} {body body' : List α}
    (hl : ∀ line ∈ lines, IsLine d line) (hl' : ∀ line ∈ lines', IsLine d line)
    (h : block (d :: eol) lines body = block (d :: eol) lines' body') :
    lines = lines' ∧ body = body' := by
  induction lines generalizing lines' with
  | nil =>
    cases lines' with
    | nil => exact ⟨rfl, List.append_cancel_left h⟩
    | cons line' lines' =>
      exact absurd h (block_nil_ne_block_cons (hl' line' List.mem_cons_self) _ _ _)
  | cons line lines ih =>
    cases lines' with
    | nil => exact absurd h.symm (block_nil_ne_block_cons (hl line List.mem_cons_self) _ _ _)
    | cons line' lines' =>
      rw [block_cons, block_cons, List.cons_append, List.cons_append] at h
      -- both texts are cut at the same place, the first element of a line end
      have hcut := cutFirst_append_cons (hl line List.mem_cons_self).no_end
        (eol ++ block (d :: eol) lines body)
      rw [h, cutFirst_append_cons (hl' line' List.mem_cons_self).no_end, Prod.mk.injEq] at hcut
      obtain ⟨rfl, hrest⟩ := hcut
      obtain ⟨rfl, hbody⟩ := ih (fun x hx => hl x (List.mem_cons_of_mem _ hx))
        (fun x hx => hl' x (List.mem_cons_of_mem _ hx)) (List.append_cancel_left hrest).symm
      exact ⟨rfl, hbody⟩

/-! ## Reading a block -/

/-- Read lines up to an empty one, at most `fuel` of them: what stands before the first `d` is
a line, and a line end has `skip` elements more. -/
def readBlock [DecidableEq α] (d : α) (skip : ℕ) : (fuel : ℕ) → List α → List (List α) × List α
  | 0, text => ([], text)
  | fuel + 1, text =>
    let cut := cutFirst d text
    let rest := cut.2.drop skip
    if cut.1.isEmpty then ([], rest)
    else
      let out := readBlock d skip fuel rest
      (cut.1 :: out.1, out.2)

/-- **A block is read back** by a reader that may read a line more than there are. -/
theorem readBlock_block [DecidableEq α] {lines : List (List α)} (h : ∀ line ∈ lines, IsLine d line)
    {fuel : ℕ} (hfuel : lines.length < fuel) (body : List α) :
    readBlock d eol.length fuel (block (d :: eol) lines body) = (lines, body) := by
  induction lines generalizing fuel with
  | nil =>
    obtain ⟨n, rfl⟩ := Nat.exists_eq_succ_of_ne_zero (Nat.ne_of_gt hfuel)
    have hcut : cutFirst d (d :: (eol ++ body)) = ([], eol ++ body) :=
      cutFirst_append_cons List.not_mem_nil (eol ++ body)
    rw [block_nil, List.cons_append, readBlock, hcut]
    simp
  | cons line lines ih =>
    obtain ⟨n, rfl⟩ := Nat.exists_eq_succ_of_ne_zero (Nat.ne_zero_of_lt hfuel)
    obtain ⟨hline, hlines⟩ := List.forall_mem_cons.mp h
    have hrest := ih hlines (Nat.lt_of_succ_lt_succ hfuel)
    rw [block_cons, List.cons_append, readBlock, cutFirst_append_cons hline.no_end]
    simp [hline.ne_nil, hrest]

theorem length_lt_block (d : α) (eol : List α) (lines : List (List α)) (body : List α) :
    lines.length < (block (d :: eol) lines body).length := by
  induction lines with
  | nil => simp [block_nil]
  | cons line lines ih =>
    rw [block_cons, List.length_cons]
    simp only [List.length_append, List.length_cons] at ih ⊢
    omega

end Httb.Foundation
