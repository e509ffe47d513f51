import Mathlib.Tactic

/-!
# Words of a shell command

A shell cuts a command into words at unquoted blanks, takes an unquoted `>` for a redirection, and
reads everything between two single quotes literally.  This file is that part of the token
recognition; every other unquoted character that means something to the shell is a token of its own,
so a command with none of them is one simple command.

* `tokens`: the tokens of a command, `none` when a quote is left open.
* `closingQuote`: the position of the quote that closes the first one.
* `tokens_quoted`: a quoted part without quotes is taken literally.
* `closingQuote_iff`: when the first quote is closed by the last character.
-/

namespace LsmFork
namespace Shell

/-- The single quote. -/
def quote : UInt8 := 0x27

/-- Tokens.  A `special` is any other unquoted character with a meaning: a control operator, an
expansion, another kind of quoting, a pattern, a comment. -/
inductive Token where
  | word (w : List UInt8)
  | redirect
  | special (c : UInt8)
  deriving DecidableEq

/-- Blanks. -/
def isBlank (c : UInt8) : Bool := c = 0x20 || c = 0x09

/-- Newline, double quote, `#`, `$`, `&`, parentheses, `*`, `;`, `<`, `?`, `[`, backslash, backtick,
braces, `|` and `~`. -/
def isSpecial (c : UInt8) : Bool :=
  c ∈ [0x0a, 0x22, 0x23, 0x24, 0x26, 0x28, 0x29, 0x2a, 0x3b, 0x3c, 0x3f, 0x5b, 0x5c, 0x60, 0x7b,
    0x7c, 0x7d, 0x7e]

/-- The word that is being read ends here. -/
def endWord : Option (List UInt8) → List Token
  | none => []
  | some w => [.word w]

/-- The tokens of a command, given whether a quote is open and the word that is being read. -/
def tokens : Bool → Option (List UInt8) → List UInt8 → Option (List Token)
  | false, w, [] => some (endWord w)
  | true, _, [] => none
  | true, w, c :: cs =>
    if c = quote then tokens false w cs else tokens true (w.map (· ++ [c])) cs
  | false, w, c :: cs =>
    if c = quote then tokens true (some (w.getD [])) cs
    else if isBlank c then (tokens false none cs).map (endWord w ++ ·)
    else if c = 0x3e then (tokens false none cs).map (endWord w ++ .redirect :: ·)
    else if isSpecial c then (tokens false none cs).map (endWord w ++ .special c :: ·)
    else tokens false (some (w.getD [] ++ [c])) cs

/-- The position of the quote that closes the first quote of a command. -/
def closingQuote (s : List UInt8) : ℕ :=
  s.idxOf quote + 1 + (s.drop (s.idxOf quote + 1)).idxOf quote

/-- A character that means nothing to the shell. -/
def isPlain (c : UInt8) : Bool := c ≠ quote && !isBlank c && c ≠ 0x3e && !isSpecial c

theorem tokens_plain (u : List UInt8) {w : List UInt8} (hw : w.all isPlain = true)
    (rest : List UInt8) :
    tokens false (some u) (w ++ rest) = tokens false (some (u ++ w)) rest := by
  induction w generalizing u with
  | nil => rw [List.nil_append, List.append_nil]
  | cons c w ih =>
    rw [List.all_cons, Bool.and_eq_true] at hw
    obtain ⟨hc, hrest⟩ := hw
    simp only [isPlain, Bool.and_eq_true, decide_eq_true_eq, Bool.not_eq_true'] at hc
    obtain ⟨⟨⟨hquote, hblank⟩, hredirect⟩, hspecial⟩ := hc
    rw [List.cons_append, tokens, if_neg hquote, if_neg (by simp [hblank]), if_neg hredirect,
      if_neg (by simp [hspecial]), Option.getD_some,
      ih (u ++ [c]) hrest, List.append_assoc, List.singleton_append]

theorem tokens_none (rest : List UInt8) {c : UInt8} (hc : isPlain c = true) :
    tokens false none (c :: rest) = tokens false (some [c]) rest := by
  simp only [isPlain, Bool.and_eq_true, decide_eq_true_eq, Bool.not_eq_true'] at hc
  obtain ⟨⟨⟨hquote, hblank⟩, hredirect⟩, hspecial⟩ := hc
  rw [tokens, if_neg hquote, if_neg (by simp [hblank]), if_neg hredirect,
    if_neg (by simp [hspecial])]
  rfl

theorem tokens_blank (w : Option (List UInt8)) {c : UInt8} (hc : isBlank c = true)
    (hquote : c ≠ quote) (rest : List UInt8) :
    tokens false w (c :: rest) = (tokens false none rest).map (endWord w ++ ·) := by
  rw [tokens, if_neg hquote, if_pos hc]

theorem tokens_redirect (rest : List UInt8) :
    tokens false none (0x3e :: rest) = (tokens false none rest).map (.redirect :: ·) := by
  rw [tokens, if_neg (by decide), if_neg (by decide), if_pos rfl]
  rfl

theorem tokens_openQuote (rest : List UInt8) :
    tokens false none (quote :: rest) = tokens true (some []) rest := by
  rw [tokens, if_pos rfl]
  rfl

/-- Between quotes every character stands for itself. -/
theorem tokens_quoted (u : List UInt8) {w : List UInt8} (hw : quote ∉ w) (rest : List UInt8) :
    tokens true (some u) (w ++ quote :: rest) = tokens false (some (u ++ w)) rest := by
  induction w generalizing u with
  | nil => rw [List.nil_append, tokens, if_pos rfl, List.append_nil]
  | cons c w ih =>
    rw [List.mem_cons, not_or] at hw
    rw [List.cons_append, tokens, if_neg (Ne.symm hw.1), Option.map_some, ih (u ++ [c]) hw.2,
      List.append_assoc, List.singleton_append]

/-- In a command that ends in a quote and has its first quote right before `w`, that quote is closed
by the last character exactly when `w` has no quote. -/
theorem closingQuote_iff {before : List UInt8} (hbefore : quote ∉ before) (w : List UInt8) :
    closingQuote (before ++ quote :: (w ++ [quote])) + 1 =
        (before ++ quote :: (w ++ [quote])).length ↔ quote ∉ w := by
  have hopen : (before ++ quote :: (w ++ [quote])).idxOf quote = before.length := by
    rw [List.idxOf_append_of_notMem hbefore, List.idxOf_cons_self, Nat.add_zero]
  have hdrop : (before ++ quote :: (w ++ [quote])).drop (before.length + 1) = w ++ [quote] := by
    rw [List.drop_append, List.drop_of_length_le (Nat.le_succ _), Nat.add_sub_cancel_left]
    rfl
  have hlen : (before ++ quote :: (w ++ [quote])).length = before.length + w.length + 2 := by
    simp
    omega
  rw [closingQuote, hopen, hdrop, hlen]
  by_cases hw : quote ∈ w
  · have hlt := List.idxOf_lt_length_of_mem hw
    rw [List.idxOf_append_of_mem hw]
    constructor
    · intro h
      omega
    · intro h
      exact absurd hw h
  · rw [List.idxOf_append_of_notMem hw, List.idxOf_cons_self]
    constructor
    · intro _
      exact hw
    · intro _
      omega

end Shell
end LsmFork
