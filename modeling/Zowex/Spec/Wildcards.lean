import Zowex.Lib.Globs
import Zowex.Spec.Charset

/-! The patterns of the member list in `zds.cpp`. -/

namespace Zowex.zds

open Globs

variable (cs : Charset)

/-- The loop of `is_match`, and how it goes back. `star` is what follows the last star of the
pattern, and where the string stood there. -/
def is_match_from : ℕ → Option (Bytes × Bytes) → Bytes → Bytes → Option Bool
  | 0, _, _, _ => none
  | _ + 1, _, [], p => some ((p.dropWhile fun c => c = cs.code '*') = [])
  | fuel + 1, star, c :: s, p =>
    if p.head? = some (cs.code '?') ∨ p.head? = some c then is_match_from fuel star s p.tail
    else if p.head? = some (cs.code '*') then
      is_match_from fuel (some (p.tail, c :: s)) (c :: s) p.tail
    else
      match star with
      | none => some false
      | some (star_p, star_s) =>
        is_match_from fuel (some (star_p, star_s.tail)) star_s.tail star_p

/-- Whether a string matches a pattern; none if that takes more steps. -/
def is_match (fuel : ℕ) (s p : Bytes) : Option Bool := is_match_from cs fuel none s p

/-- What a character of a pattern stands for. -/
def symbol (c : UInt8) : Symbol UInt8 :=
  if c = cs.code '*' then .star else if c = cs.code '?' then .any else .char c

end Zowex.zds
