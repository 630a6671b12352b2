import Mathlib.Data.List.Infix

/-! Codes that say where they end. A self-delimiting encoding can be split off
the front of any longer string, so encodings can be concatenated without
separators and no codeword is a prefix of another. Everything here is over an
arbitrary alphabet. -/
namespace H2oTpcc

/-- The encoded value and everything behind it are recovered from the
concatenation. -/
def SelfDelimiting (encode : α → List β) : Prop :=
  ∀ a b rest rest', encode a ++ rest = encode b ++ rest' → a = b ∧ rest = rest'

namespace SelfDelimiting

/-- No encoding is a proper prefix of another, which is what keeps the rows of one table from
running into those of the next. -/
theorem eq_of_isPrefix {encode : α → List β} (code : SelfDelimiting encode)
    (inside : encode a <+: encode b) : a = b := by
  obtain ⟨rest, split⟩ := inside
  exact (code a b rest [] (by simpa using split)).1

/-- A code without proper prefixes among its codewords is self-delimiting:
of two codewords at the front of one string, one is a prefix of the other. -/
theorem of_no_prefix {encode : α → List β} (free : ∀ a b, encode a <+: encode b → a = b) :
    SelfDelimiting encode := by
  intro a b rest rest' same
  have left : encode a <+: encode b ++ rest' := ⟨rest, same⟩
  have equal : a = b := by
    rcases List.prefix_or_prefix_of_prefix left (List.prefix_append _ _) with short | long
    · exact free a b short
    · exact (free b a long).symm
  subst equal
  exact ⟨rfl, List.append_cancel_left same⟩

/-- An injective encoding of fixed width is self-delimiting: two encodings of one length with a
common start are equal. -/
theorem of_fixed_width {encode : α → List β} (width : ∀ a, (encode a).length = n)
    (injective : Function.Injective encode) : SelfDelimiting encode := by
  intro a b rest rest' same
  obtain ⟨front, back⟩ := List.append_inj same ((width a).trans (width b).symm)
  exact ⟨injective front, back⟩

/-- Writing one self-delimiting code behind another gives a self-delimiting
code for pairs. -/
theorem append {first : α → List β} {second : γ → List β} (left : SelfDelimiting first)
    (right : SelfDelimiting second) :
    SelfDelimiting (fun pair : α × γ => first pair.1 ++ second pair.2) := by
  rintro ⟨a, c⟩ ⟨b, d⟩ rest rest' same
  simp only [List.append_assoc] at same
  obtain ⟨rfl, behind⟩ := left a b _ _ same
  obtain ⟨rfl, tails⟩ := right c d _ _ behind
  exact ⟨rfl, tails⟩

end SelfDelimiting

/-- A string over the letters other than `stop`. -/
def Unstopped (stop : β) := { letters : List β // stop ∉ letters }

instance [DecidableEq β] (stop : β) : DecidableEq (Unstopped stop) :=
  inferInstanceAs (DecidableEq { letters : List β // stop ∉ letters })

/-- A string followed by its terminator. -/
def terminated (stop : β) (string : Unstopped stop) : List β := string.1 ++ [stop]

private theorem terminated_split {stop : β} (front back : List β) (frontFree : stop ∉ front)
    (backFree : stop ∉ back) (same : front ++ stop :: rest = back ++ stop :: rest') :
    front = back ∧ rest = rest' := by
  induction front generalizing back with
  | nil =>
    cases back with
    | nil => simpa using same
    | cons letter back =>
      simp only [List.nil_append, List.cons_append, List.cons.injEq] at same
      exact absurd (same.1 ▸ List.mem_cons_self) backFree
  | cons letter front ih =>
    cases back with
    | nil =>
      simp only [List.nil_append, List.cons_append, List.cons.injEq] at same
      exact absurd (same.1 ▸ List.mem_cons_self) frontFree
    | cons letter' back =>
      simp only [List.cons_append, List.cons.injEq] at same
      obtain ⟨rfl, tails⟩ := ih back (fun member => frontFree (List.mem_cons_of_mem _ member))
        (fun member => backFree (List.mem_cons_of_mem _ member)) same.2
      exact ⟨by rw [same.1], tails⟩

/-- Text that ends at a byte it cannot contain is self-delimiting, whatever its length. -/
theorem terminated_selfDelimiting (stop : β) : SelfDelimiting (terminated stop) := by
  intro a b rest rest' same
  simp only [terminated, List.append_assoc, List.singleton_append] at same
  obtain ⟨letters, tails⟩ := terminated_split a.1 b.1 a.2 b.2 same
  exact ⟨Subtype.ext letters, tails⟩

end H2oTpcc
