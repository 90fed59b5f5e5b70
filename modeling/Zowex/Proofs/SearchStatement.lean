import Zowex.Lib.Delimited
import Zowex.Lib.Lines
import Zowex.Proofs.ToolResults

/-! The control statement of a search, written with the string between apostrophes. -/

namespace Zowex.tool

variable {cs : Charset} {sv : Services} {args : SearchArgs}

/-- The string that a statement `SRCHFOR` searches for: between apostrophes, where a doubled one
stands for one, with nothing but blanks behind it. -/
def srchfor_operand (cs : Charset) (statement : Bytes) : Option Bytes :=
  let text := statement.dropWhile (· = cs.code ' ')
  if (cs.str "SRCHFOR ").isPrefixOf text = false then none
  else
    let operand := (text.drop 8).dropWhile (· = cs.code ' ')
    if operand.head? ≠ some (cs.code '\'') then none
    else
      (Delimited.read (cs.code '\'') operand.tail).bind fun string =>
        if string.2.all (· = cs.code ' ') then some string.1 else none

/-- The control data are one statement that searches for the string. -/
def SearchesFor (cs : Charset) (args : SearchArgs) : Prop :=
  ∃ statement, search_statements cs args = statement ++ [cs.code '\n'] ∧
    cs.code '\n' ∉ statement ∧ srchfor_operand cs statement = some args.string

/-- Where the search runs, it is for the string that was given. -/
def FindsGiven (cs : Charset) (sv : Services) (args : SearchArgs) : Prop :=
  Succeed sv 0 (search_dds cs args) → SearchesFor cs args

theorem search_statements_eq : search_statements cs args =
    (cs.code ' ' :: cs.str "SRCHFOR " ++ cs.code '\'' :: (args.string ++ [cs.code '\''])) ++
      [cs.code '\n'] := by
  simp [search_statements, Charset.str]

/-- The operand is all that comes after the keyword. -/
theorem srchfor_operand_eq (text : Bytes) :
    srchfor_operand cs (cs.code ' ' :: cs.str "SRCHFOR " ++ cs.code '\'' :: text) =
      (Delimited.read (cs.code '\'') text).bind fun string =>
        if string.2.all (· = cs.code ' ') then some string.1 else none := by
  have hkeyword : (cs.code ' ' :: cs.str "SRCHFOR " ++ cs.code '\'' :: text).dropWhile
      (· = cs.code ' ') = cs.str "SRCHFOR " ++ cs.code '\'' :: text := by
    have hs : cs.code 'S' ≠ cs.code ' ' := cs.code_ne (by decide) (by decide) (by decide)
    simp [Charset.str, hs]
  have hquote : cs.code '\'' ≠ cs.code ' ' := cs.code_ne (by decide) (by decide) (by decide)
  have hlength : (cs.str "SRCHFOR ").length = 8 := by simp [Charset.str]
  have hstart : (cs.str "SRCHFOR ").isPrefixOf (cs.str "SRCHFOR " ++ cs.code '\'' :: text) = true :=
    List.isPrefixOf_iff_prefix.mpr (List.prefix_append _ _)
  have hoperand : ((cs.str "SRCHFOR " ++ cs.code '\'' :: text).drop 8).dropWhile
      (· = cs.code ' ') = cs.code '\'' :: text := by
    rw [List.drop_left' hlength]
    simp [hquote]
  rw [srchfor_operand, hkeyword]
  dsimp only
  rw [if_neg (by simp [hstart]), hoperand, if_neg (by simp), List.tail_cons]

theorem newline_notMem {chars : List Char} (h : ∀ c ∈ chars, c ∈ printable) :
    cs.code '\n' ∉ chars.map cs.code := by
  intro hmem
  obtain ⟨c, hc, hcode⟩ := List.mem_map.mp hmem
  obtain rfl : c = '\n' := (cs.code_eq_iff (List.mem_append_left _ (h c hc)) (by decide)).mp hcode
  exact absurd (h '\n' hc) (by decide)

theorem searches_for_iff (hlines : cs.code '\n' ∉ args.string) :
    SearchesFor cs args ↔ cs.code '\'' ∉ args.string := by
  have hstatement : SearchesFor cs args ↔ srchfor_operand cs (cs.code ' ' :: cs.str "SRCHFOR " ++
      cs.code '\'' :: (args.string ++ [cs.code '\''])) = some args.string := by
    constructor
    · rintro ⟨statement, hsame, -, hoperand⟩
      rw [search_statements_eq] at hsame
      rwa [List.append_cancel_right hsame]
    · intro hoperand
      refine ⟨_, search_statements_eq, ?_, hoperand⟩
      have hkeyword : cs.code '\n' ∉ cs.code ' ' :: cs.str "SRCHFOR " :=
        @newline_notMem cs " SRCHFOR ".toList (by decide)
      have hquote : cs.code '\n' ∉ [cs.code '\''] := @newline_notMem cs ['\''] (by decide)
      simp only [List.mem_singleton] at hquote
      simp only [List.mem_append, List.mem_cons, List.not_mem_nil, or_false, not_or]
      exact ⟨by simpa using hkeyword, hquote, hlines, hquote⟩
  rw [hstatement, srchfor_operand_eq]
  constructor
  · intro h
    obtain ⟨⟨string, rest⟩, hread, hrest⟩ := Option.bind_eq_some_iff.mp h
    dsimp only at hrest
    split_ifs at hrest
    obtain rfl : string = args.string := Option.some.inj hrest
    exact Delimited.notMem_of_read hread
  · intro h
    rw [Delimited.read_of_notMem h]
    rfl

/-- A search that runs is for the string that was given if there is no apostrophe in it. -/
theorem finds_given_iff (hlines : cs.code '\n' ∉ args.string) :
    FindsGiven cs sv args ↔ cs.code '\'' ∉ args.string ∨ ¬ Succeed sv 0 (search_dds cs args) := by
  rw [FindsGiven, searches_for_iff hlines, imp_iff_or_not]

def search_for (string : String) : SearchArgs :=
  ⟨ibm1047.str string, [], ibm1047.str "A.B", ibm1047.str "space(50,100)"⟩

theorem finds_given_ab :
    FindsGiven ibm1047 working (search_for "AB") ↔
      ibm1047.code '\'' ∉ (search_for "AB").string ∨
        ¬ Succeed working 0 (search_dds ibm1047 (search_for "AB")) :=
  finds_given_iff (by decide +kernel)

/-- A search for `IT'S` -/
theorem apostrophe_ends_operand :
    ibm1047.code '\n' ∉ (search_for "IT'S").string ∧
      ¬ FindsGiven ibm1047 working (search_for "IT'S") := by
  have hlines : ibm1047.code '\n' ∉ (search_for "IT'S").string := by decide +kernel
  have hquote : ibm1047.code '\'' ∈ (search_for "IT'S").string := by decide +kernel
  refine ⟨hlines, fun h => ?_⟩
  exact (searches_for_iff hlines).mp (h fun _ _ _ => rfl) hquote

end Zowex.tool
