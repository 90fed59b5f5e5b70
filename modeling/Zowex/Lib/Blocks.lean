import Mathlib.Data.List.Basic
import Mathlib.Tactic

/-! Feeding a list in pieces to a function that works on blocks of `n` elements. Each
call converts the whole blocks it has and carries the rest over to the next one. -/

namespace Blocks

variable {α β ε : Type*} (n : ℕ)

/-- The longest prefix made of whole blocks. -/
def whole (xs : List α) : List α := xs.take (xs.length - xs.length % n)

/-- The unfinished block after it. -/
def rest (xs : List α) : List α := xs.drop (xs.length - xs.length % n)

theorem whole_append_rest (xs : List α) : whole n xs ++ rest n xs = xs :=
  List.take_append_drop _ _

theorem dvd_length_whole (xs : List α) : n ∣ (whole n xs).length := by
  rw [whole, List.length_take, min_eq_left (Nat.sub_le _ _)]
  exact Nat.dvd_sub_mod _

theorem length_rest (xs : List α) : (rest n xs).length = xs.length % n := by
  have := Nat.mod_le xs.length n
  rw [rest, List.length_drop]
  omega

theorem length_rest_lt (hn : 0 < n) (xs : List α) : (rest n xs).length < n := by
  rw [length_rest]
  exact Nat.mod_lt _ hn

/-- The blocks converted by each call, and what is carried after the last one. -/
def feed (carry : List α) : List (List α) → List (List α) × List α
  | [] => ([], carry)
  | piece :: pieces =>
    let (ws, last) := feed (rest n (carry ++ piece)) pieces
    (whole n (carry ++ piece) :: ws, last)

theorem feed_flatten (carry : List α) (pieces : List (List α)) :
    (feed n carry pieces).1.flatten ++ (feed n carry pieces).2 = carry ++ pieces.flatten := by
  induction pieces generalizing carry with
  | nil => simp [feed]
  | cons piece pieces ih =>
    simp only [feed, List.flatten_cons, List.append_assoc, ih]
    rw [← List.append_assoc, whole_append_rest, List.append_assoc]

theorem dvd_length_feed (carry : List α) (pieces : List (List α)) :
    ∀ w ∈ (feed n carry pieces).1, n ∣ w.length := by
  induction pieces generalizing carry with
  | nil => simp [feed]
  | cons piece pieces ih =>
    intro w hw
    rcases List.mem_cons.mp hw with rfl | hw
    · exact dvd_length_whole n _
    · exact ih _ w hw

theorem length_feed_lt (hn : 0 < n) {carry : List α} (hc : carry.length < n)
    (pieces : List (List α)) : (feed n carry pieces).2.length < n := by
  induction pieces generalizing carry with
  | nil => exact hc
  | cons piece pieces ih => exact ih (length_rest_lt n hn _)

theorem dvd_length_flatten {ws : List (List α)} (h : ∀ w ∈ ws, n ∣ w.length) :
    n ∣ ws.flatten.length := by
  rw [List.length_flatten]
  exact List.dvd_sum fun _ hx => by
    obtain ⟨w, hw, rfl⟩ := List.mem_map.mp hx
    exact h w hw

/-- Nothing is carried when the total length is a multiple of the block size. -/
theorem feed_carry_nil (hn : 0 < n) (pieces : List (List α)) (h : n ∣ pieces.flatten.length) :
    (feed n [] pieces).2 = [] := by
  have hflat := congrArg List.length (feed_flatten n [] pieces)
  rw [List.nil_append, List.length_append] at hflat
  have hsum : n ∣ (feed n [] pieces).1.flatten.length + (feed n [] pieces).2.length := hflat ▸ h
  have hdvd : n ∣ (feed n [] pieces).2.length :=
    (Nat.dvd_add_right (dvd_length_flatten n (dvd_length_feed n [] pieces))).mp hsum
  have hnil : ([] : List α).length < n := hn
  have hlt := length_feed_lt n hn hnil pieces
  exact List.eq_nil_of_length_eq_zero (Nat.eq_zero_of_dvd_of_lt hdvd hlt)

section Functions

/-- A total function that may be applied block by block. -/
theorem map_flatten {f : List α → List β}
    (happ : ∀ a b, n ∣ a.length → f (a ++ b) = f a ++ f b) {ws : List (List α)}
    (h : ∀ w ∈ ws, n ∣ w.length) (last : List α) :
    f (ws.flatten ++ last) = (ws.map f).flatten ++ f last := by
  induction ws with
  | nil => simp
  | cons w ws ih =>
    rw [List.flatten_cons, List.append_assoc, happ _ _ (h w (by simp)),
      ih fun x hx => h x (List.mem_cons_of_mem w hx)]
    simp

/-- The same for a function that may fail, on a text without an unfinished block. -/
theorem mapM_flatten {f : List α → Except ε (List β)} (hnil : f [] = .ok [])
    (happ : ∀ a b, n ∣ a.length → n ∣ b.length →
      f (a ++ b) = (do let x ← f a; let y ← f b; return x ++ y))
    {ws : List (List α)} (h : ∀ w ∈ ws, n ∣ w.length) :
    f ws.flatten = (do let ys ← ws.mapM f; return ys.flatten) := by
  induction ws with
  | nil => exact hnil
  | cons w ws ih =>
    have hws : ∀ x ∈ ws, n ∣ x.length := fun x hx => h x (List.mem_cons_of_mem w hx)
    rw [List.flatten_cons, happ _ _ (h w (by simp)) (dvd_length_flatten n hws), ih hws]
    simp [List.mapM_cons]

end Functions

end Blocks
