import Kconmon.Console.AlertTracks
import Kconmon.Lib.LengthPrefix

/-!
# What a fingerprint identifies

A fingerprint is the rule's id and a hash of the alert's labels, each name and each value written
behind its length. A label name does not begin with a digit, and that keeps the names apart; a label
value may, and then it can continue the numeral of its own length. So two alerts share a fingerprint
when the labels of one imitate those of the other.
-/
namespace Kconmon.Console.Webhooks
open Lib

/-! ## Decimal numerals and bytes -/

theorem toDigits_zero_append {n : ℕ} {d : List Char}
    (numeral : Nat.toDigits 10 n = Nat.toDigits 10 0 ++ d) : d = [] := by
  induction n using Nat.strong_induction_on generalizing d with
  | h n ih =>
    rw [Nat.toDigits_zero] at numeral ih
    rcases lt_or_ge n 10 with small | large
    · rw [Nat.toDigits_of_lt_base small] at numeral
      simpa using congrArg List.tail numeral.symm
    · rw [Nat.toDigits_of_base_le (by decide) large] at numeral
      obtain ⟨first, more, front⟩ := List.exists_cons_of_ne_nil
        (Nat.toDigits_ne_nil (n := n / 10) (b := 10))
      rw [front, List.cons_append, List.singleton_append, List.cons.injEq] at numeral
      obtain ⟨rfl, -⟩ := numeral
      have rest : more = [] := ih (n / 10) (by omega) front
      -- the numeral of `n / 10` is that of zero, although `n` has two digits
      have zero : n / 10 = 0 := by
        have value := congrArg (Nat.ofDigitChars 10 · 0) (rest ▸ front)
        simpa [Nat.ofDigitChars_ten_toDigits, Nat.ofDigitChars_cons] using value
      omega

def decimalBytes : Numbering Char where
  numeral := Nat.toDigits 10
  size x := (String.ofList x).utf8ByteSize
  numeral_injective := Function.LeftInverse.injective fun _ => Nat.ofDigitChars_ten_toDigits
  numeral_zero := toDigits_zero_append
  size_append x y := by rw [String.ofList_append, String.utf8ByteSize_append]
  eq_nil_of_size size := by simpa using size

theorem decimalBytes_isDigit {c : Char} (digit : decimalBytes.IsDigit c) : c.isDigit = true := by
  obtain ⟨n, mem⟩ := digit
  exact Nat.isDigit_of_mem_toDigits (by decide) (by decide) mem

/-! ## Labels as records -/

/-- The Prometheus grammar of label names. -/
def validLabelName (name : String) : Bool :=
  match name.toList with
  | [] => false
  | c :: rest => (c.isAlpha || c == '_') && rest.all fun r => r.isAlphanum || r == '_'

theorem begins_of_validLabelName {name : String} (valid : validLabelName name = true) :
    decimalBytes.Begins name.toList := by
  unfold validLabelName at valid
  cases chars : name.toList with
  | nil => simp [chars] at valid
  | cons c rest =>
    refine ⟨c, rfl, fun digit => ?_⟩
    have digit := decimalBytes_isDigit digit
    simp only [chars, Bool.and_eq_true, Bool.or_eq_true, beq_iff_eq] at valid
    obtain ⟨alpha | rfl, -⟩ := valid
    · have letter : c.isAlpha = (decide (65 ≤ c.val ∧ c.val ≤ 90) ||
          (decide (97 ≤ c.val) && decide (c.val ≤ 122))) := rfl
      have figure : c.isDigit = (decide (48 ≤ c.val) && decide (c.val ≤ 57)) := rfl
      simp only [letter, figure, Bool.or_eq_true, Bool.and_eq_true, decide_eq_true_eq,
        UInt32.le_iff_toNat_le, UInt32.reduceToNat] at alpha digit
      omega
    · simp at digit

def Labels.records (labels : Labels) : List (List Char × List Char) :=
  (sortedKeys labels).map fun k => (k.toList, (labels.get k).toList)

theorem fingerprint_eq (d : AlertWatcherDeps) (ruleID : String) (labels : Labels) :
    fingerprint d ruleID labels =
      ruleID ++ "/" ++ d.sha256 (String.ofList (decimalBytes.write labels.records)) := by
  unfold fingerprint
  congr 2
  apply String.toList_injective
  simp [String.toList_join, Numbering.write, Numbering.field, Labels.records, decimalBytes,
    List.flatMap_map, List.flatMap_assoc]

theorem mem_records {labels : Labels} {p : List Char × List Char} :
    p ∈ labels.records ↔ ∃ k ∈ labels, (k.toList, (labels.get k).toList) = p := by
  simp only [Labels.records, List.mem_map, mem_sortedKeys]

/-- Sorted, the labels are written in one order: the records are those of the map. -/
theorem records_eq_iff {labels labels' : Labels} : labels.records = labels'.records ↔
    ∀ k, labels.lookup k = labels'.lookup k := by
  constructor
  · intro same k
    have keys : sortedKeys labels = sortedKeys labels' := by
      have names := congrArg (List.map fun r => String.ofList r.1) same
      simpa only [Labels.records, List.map_map, Function.comp_def, String.ofList_toList,
        List.map_id'] using names
    have values : ∀ k ∈ sortedKeys labels, labels.get k = labels'.get k := by
      rw [Labels.records, Labels.records, ← keys, List.map_inj_left] at same
      intro k mem
      exact String.toList_injective (Prod.ext_iff.mp (same k mem)).2
    have held : k ∈ labels ↔ k ∈ labels' := by
      rw [← mem_sortedKeys, keys, mem_sortedKeys]
    by_cases mem : k ∈ labels
    · obtain ⟨v, found⟩ := Option.isSome_iff_exists.mp (AList.lookup_isSome.mpr mem)
      obtain ⟨v', found'⟩ := Option.isSome_iff_exists.mp (AList.lookup_isSome.mpr (held.mp mem))
      have value := values k (mem_sortedKeys.mpr mem)
      simp only [Labels.get, found, found', Option.getD_some] at value
      rw [found, found', value]
    · rw [AList.lookup_eq_none.mpr mem, AList.lookup_eq_none.mpr (held.not.mp mem)]
  · intro same
    have held : ∀ k, k ∈ labels ↔ k ∈ labels' := fun k => by
      rw [← AList.lookup_isSome, same k, AList.lookup_isSome]
    have perm : labels.keys.Perm labels'.keys :=
      (List.perm_ext_iff_of_nodup labels.keys_nodup labels'.keys_nodup).mpr held
    have keys : sortedKeys labels = sortedKeys labels' :=
      List.Perm.eq_of_pairwise' (List.pairwise_insertionSort _ _)
        (List.pairwise_insertionSort _ _)
        (((List.perm_insertionSort _ _).trans perm).trans (List.perm_insertionSort _ _).symm)
    have values : labels.get = labels'.get := funext fun k => by simp [Labels.get, same k]
    rw [Labels.records, Labels.records, keys, values]

/-! ## When two alerts share a fingerprint -/

/-- Everything before the first slash is the rule's id. -/
theorem slash_split {r r' h h' : String} (plain : '/' ∉ r.toList) (plain' : '/' ∉ r'.toList) :
    r ++ "/" ++ h = r' ++ "/" ++ h' ↔ r = r' ∧ h = h' := by
  constructor
  · intro same
    have chars := congrArg String.toList same
    simp only [String.toList_append, List.append_assoc] at chars
    rcases List.append_eq_append_iff.mp chars with ⟨d, longer, rest⟩ | ⟨d, longer, rest⟩
    all_goals
      cases d with
      | nil => simp_all [String.toList_inj]
      | cons c d => simp_all
  · rintro ⟨rfl, rfl⟩
    rfl

section

variable {d : AlertWatcherDeps} (collisionFree : Function.Injective d.sha256)
  {ruleID ruleID' : String} (plain : '/' ∉ ruleID.toList) (plain' : '/' ∉ ruleID'.toList)
  {labels labels' : Labels} (names : ∀ k ∈ labels, validLabelName k = true)
  (names' : ∀ k ∈ labels', validLabelName k = true)
include collisionFree plain plain' names names'

theorem fingerprint_eq_iff : fingerprint d ruleID labels = fingerprint d ruleID' labels' ↔
      ruleID = ruleID' ∧ ((∀ k, labels.lookup k = labels'.lookup k) ∨
        decimalBytes.Imitates labels.records labels'.records ∨
        decimalBytes.Imitates labels'.records labels.records) := by
  have begins {labels : Labels} (names : ∀ k ∈ labels, validLabelName k = true) :
      ∀ p ∈ labels.records, decimalBytes.Begins p.1 := by
    intro p mem
    obtain ⟨k, held, rfl⟩ := mem_records.mp mem
    exact begins_of_validLabelName (names k held)
  rw [fingerprint_eq, fingerprint_eq, slash_split plain plain', collisionFree.eq_iff,
    String.ofList_inj, Numbering.write_eq_iff (begins names) (begins names'), records_eq_iff]

/-- Two alerts are told apart by their fingerprints exactly when they do not belong to one rule with
the labels of one imitating those of the other. -/
theorem fingerprint_identifies_iff : (fingerprint d ruleID labels = fingerprint d ruleID' labels' ↔
      ruleID = ruleID' ∧ ∀ k, labels.lookup k = labels'.lookup k) ↔
    ¬(ruleID = ruleID' ∧ (decimalBytes.Imitates labels.records labels'.records ∨
      decimalBytes.Imitates labels'.records labels.records)) := by
  rw [fingerprint_eq_iff collisionFree plain plain' names names', ← records_eq_iff]
  have differ : decimalBytes.Imitates labels.records labels'.records ∨
      decimalBytes.Imitates labels'.records labels.records → labels.records ≠ labels'.records := by
    rintro (imitates | imitates)
    · exact imitates.ne
    · exact imitates.ne.symm
  tauto

end

/-- The value `2` of `a` and the label `b` after it, both behind their lengths. -/
def twoLabels : Labels := AList.insert "a" "2" (AList.insert "b" "xxxxxxxxx" ∅)

/-- One value of twelve bytes, whose length begins with the length of `2`. -/
def oneLabel : Labels := AList.insert "a" "1b9xxxxxxxxx" ∅

theorem validLabelName_twoLabels : ∀ k ∈ twoLabels, validLabelName k = true := by
  change ∀ k ∈ twoLabels.keys, validLabelName k = true
  decide

theorem validLabelName_oneLabel : ∀ k ∈ oneLabel, validLabelName k = true := by
  change ∀ k ∈ oneLabel.keys, validLabelName k = true
  decide

def unhashed : AlertWatcherDeps where
  rules := false
  maintenance := false
  interval := 0
  sha256 := id

theorem fingerprint_identifies_iff_twoLabels :
    (fingerprint unhashed "r" twoLabels = fingerprint unhashed "r" oneLabel ↔
      "r" = "r" ∧ ∀ k, twoLabels.lookup k = oneLabel.lookup k) ↔
    ¬("r" = "r" ∧ (decimalBytes.Imitates twoLabels.records oneLabel.records ∨
      decimalBytes.Imitates oneLabel.records twoLabels.records)) :=
  fingerprint_identifies_iff Function.injective_id (by decide) (by decide)
    validLabelName_twoLabels validLabelName_oneLabel

/-- Whatever the hash, the two label sets have one fingerprint. -/
theorem fingerprint_collides :
    (∀ d ruleID, fingerprint d ruleID twoLabels = fingerprint d ruleID oneLabel) ∧
      (∀ k ∈ twoLabels, validLabelName k = true) ∧ (∀ k ∈ oneLabel, validLabelName k = true) ∧
      twoLabels.lookup "b" ≠ oneLabel.lookup "b" := by
  have written : decimalBytes.write twoLabels.records = decimalBytes.write oneLabel.records := by
    decide
  refine ⟨fun d ruleID => ?_, validLabelName_twoLabels, validLabelName_oneLabel, by decide⟩
  rw [fingerprint_eq, fingerprint_eq, written]

end Kconmon.Console.Webhooks
