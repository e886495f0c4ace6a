import Kconmon.Console.AddressForms

/-!
# The page's literals and the server's

The page reads every literal that the server reads. It reads more: it allows leading zeros in a
dotted quad, and it allows the quad to stand before a final `::`.
-/
namespace Kconmon.Console.Address
open Lib Page

/-! ## Dotted quads -/

/-- No number of a dotted quad starts with a zero that could be left out. -/
def PlainQuad (q : Text) : Prop := ∀ p ∈ q.splitOn '.', ¬(1 < p.length ∧ p.head? = some '0')

instance (q : Text) : Decidable (PlainQuad q) := inferInstanceAs (Decidable (∀ _ ∈ _, _))

variable {q : Text}

theorem isIPv4_iff : isIPv4 q = true ↔ Page.isIPv4Dotted q = true ∧ PlainQuad q := by
  simp only [isIPv4, isIPv4Dotted, PlainQuad, isPlainOctet, Bool.and_eq_true, List.all_eq_true,
    decide_eq_true_eq, Bool.not_eq_true', Bool.and_eq_false_iff, decide_eq_false_iff_not]
  grind

variable {c : Char}

section
variable (quad : isIPv4Dotted q = true)
include quad

theorem mem_isIPv4Dotted (mem : c ∈ q) : c.isDigit = true ∨ c = '.' := by
  by_cases dot : c = '.'
  · exact .inr dot
  · obtain ⟨p, listed, inside⟩ := exists_mem_splitOn mem dot
    simp only [isIPv4Dotted, Bool.and_eq_true, List.all_eq_true, isOctet] at quad
    exact .inl ((quad.2 p listed).1.2 c inside)

theorem plain_of_isIPv4Dotted (mem : c ∈ q) : Plain c := by
  rcases mem_isIPv4Dotted quad mem with digit | rfl
  · exact plain_of_isDigit digit
  · decide

theorem dot_mem_of_isIPv4Dotted : '.' ∈ q := by
  by_contra absent
  simp [isIPv4Dotted, List.splitOn_eq_singleton absent] at quad

end

/-! ## Groups -/

variable {g : Text}

theorem isGroup_ne_nil (group : isGroup g = true) : g ≠ [] := by
  rintro rfl
  cases group

theorem isHex_of_mem_isGroup (group : isGroup g = true) (mem : c ∈ g) : isHex c = true := by
  simp only [isGroup, Bool.and_eq_true, List.all_eq_true] at group
  exact group.2 c mem

theorem dot_notMem_of_isGroup (group : isGroup g = true) : '.' ∉ g :=
  fun mem => absurd (isHex_of_mem_isGroup group mem) (by decide)

/-- Groups of hexadecimal digits, the last one possibly a dotted quad. -/
inductive Groups (quad : Text → Prop) : List Text → Nat → Prop
  | plain (gs : List Text) (hex : ∀ g ∈ gs, isGroup g = true) : Groups quad gs gs.length
  | dotted (gs : List Text) (q : Text) (hex : ∀ g ∈ gs, isGroup g = true) (dots : quad q) :
      Groups quad (gs ++ [q]) (gs.length + 2)

variable {gs : List Text} {n : Nat} {quad : Text → Prop}

theorem Groups.cons (group : isGroup g = true) (rest : Groups quad gs n) :
    Groups quad (g :: gs) (n + 1) := by
  cases rest with
  | plain gs hex => exact .plain (g :: gs) (by simpa [group] using hex)
  | dotted gs q hex dots => exact .dotted (g :: gs) q (by simpa [group] using hex) dots

theorem units_cons (group : isGroup g = true) (gs : List Text) :
    units (g :: gs) = (units gs).map (· + 1) := by
  cases gs <;> simp [units, group]

theorem groups_of_units (counted : units gs = some n) : Groups (fun q => isIPv4 q = true) gs n := by
  fun_induction units gs generalizing n with
  | case1 =>
    cases counted
    exact .plain [] (by simp)
  | case2 g group =>
    cases counted
    exact .plain [g] (by simpa using group)
  | case3 g group quad =>
    cases counted
    exact .dotted [] g (by simp) quad
  | case4 => cases counted
  | case5 g gs _ group ih =>
    obtain ⟨m, fewer, rfl⟩ := Option.map_eq_some_iff.mp counted
    exact (ih fewer).cons group
  | case6 => cases counted

theorem units_of_groups (groups : Groups (fun q => isIPv4 q = true) gs n) : units gs = some n := by
  cases groups with
  | plain gs hex =>
    induction gs with
    | nil => rfl
    | cons g gs ih =>
      rw [List.forall_mem_cons] at hex
      simp [units_cons hex.1, ih hex.2]
  | dotted gs q hex quad =>
    induction gs with
    | nil =>
      have dots := dot_mem_of_isIPv4Dotted (isIPv4_iff.mp quad).1
      have group : ¬isGroup q = true := fun group => dot_notMem_of_isGroup group dots
      simp [units, group, quad]
    | cons g gs ih =>
      rw [List.forall_mem_cons] at hex
      simp [units_cons hex.1, ih hex.2]

theorem units_eq_some : units gs = some n ↔ Groups (fun q => isIPv4 q = true) gs n :=
  ⟨groups_of_units, units_of_groups⟩

theorem fits_plain (compressed : Bool) (undotted : ¬gs.getLast?.any (·.contains '.') = true) :
    fits compressed gs = true ↔
      (∀ g ∈ gs, isGroup g = true) ∧ if compressed then gs.length < 8 else gs.length = 8 := by
  simp only [fits, undotted]
  cases compressed <;> simp

theorem fits_dotted (compressed : Bool) (gs : List Text) (dots : '.' ∈ q) :
    fits compressed (gs ++ [q]) = true ↔ isIPv4Dotted q = true ∧ (∀ g ∈ gs, isGroup g = true) ∧
        if compressed then gs.length + 2 < 8 else gs.length + 2 = 8 := by
  cases compressed <;> cases quad : isIPv4Dotted q <;> simp [fits, dots, quad]

theorem fits_iff {compressed : Bool} : Page.fits compressed gs = true ↔
    ∃ n, Groups (fun q => isIPv4Dotted q = true) gs n ∧
      if compressed then n < 8 else n = 8 := by
  constructor
  · intro fits
    by_cases dotted : gs.getLast?.any (·.contains '.') = true
    · obtain ⟨q, last, dots⟩ := (Option.any_eq_true _ _).mp dotted
      obtain ⟨hs, rfl⟩ := List.getLast?_eq_some_iff.mp last
      obtain ⟨quad, hex, total⟩ := (fits_dotted compressed hs (by simpa using dots)).mp fits
      exact ⟨_, .dotted hs q hex quad, total⟩
    · obtain ⟨hex, total⟩ := (fits_plain compressed dotted).mp fits
      exact ⟨_, .plain gs hex, total⟩
  · rintro ⟨n, groups, total⟩
    cases groups with
    | plain gs hex =>
      refine (fits_plain compressed ?_).mpr ⟨hex, total⟩
      intro dotted
      obtain ⟨q, last, dots⟩ := (Option.any_eq_true _ _).mp dotted
      exact dot_notMem_of_isGroup (hex q (List.mem_of_getLast? last)) (by simpa using dots)
    | dotted gs q hex quad =>
      exact (fits_dotted compressed gs (dot_mem_of_isIPv4Dotted quad)).mpr ⟨quad, hex, total⟩

/-! ## Splitting at the colons -/

theorem Groups.uncons (groups : Groups quad (g :: gs) n) (more : gs ≠ []) :
    isGroup g = true ∧ ∃ m, Groups quad gs m ∧ n = m + 1 := by
  generalize whole : g :: gs = all at groups
  cases groups with
  | plain _ hex =>
    subst whole
    rw [List.forall_mem_cons] at hex
    exact ⟨hex.1, gs.length, .plain gs hex.2, rfl⟩
  | dotted hs q hex dots =>
    cases hs with
    | nil => simp_all
    | cons h hs =>
      obtain ⟨rfl, rfl⟩ := List.cons.inj whole
      rw [List.forall_mem_cons] at hex
      exact ⟨hex.1, hs.length + 2, .dotted hs q hex.2 dots, rfl⟩

/-- What comes before further groups is hexadecimal. -/
theorem groups_append {hs : List Text} (more : hs ≠ []) : Groups quad (gs ++ hs) n ↔
      (∀ g ∈ gs, isGroup g = true) ∧ ∃ m, Groups quad hs m ∧ n = gs.length + m := by
  induction gs generalizing n with
  | nil => simp
  | cons g gs ih =>
    constructor
    · intro groups
      obtain ⟨group, m, rest, rfl⟩ := groups.uncons (by simp [more])
      obtain ⟨hex, k, later, rfl⟩ := ih.mp rest
      refine ⟨List.forall_mem_cons.mpr ⟨group, hex⟩, k, later, ?_⟩
      simp only [List.length_cons]
      omega
    · rintro ⟨hex, m, rest, rfl⟩
      rw [List.forall_mem_cons] at hex
      have groups := (ih.mpr ⟨hex.2, m, rest, rfl⟩).cons hex.1
      rw [List.length_cons, Nat.add_right_comm]
      exact groups

/-- The text after the last colon. -/
def lastField (s : Text) : Text := (s.splitOn ':').getLastD []

/-- A dotted quad stands at the end, and has no leading zeros. -/
def EndsPlain (s : Text) : Prop := '.' ∈ s → '.' ∈ lastField s ∧ PlainQuad (lastField s)

instance (s : Text) : Decidable (EndsPlain s) := inferInstanceAs (Decidable (_ → _))

variable {s : Text}

theorem mem_fields (other : c ≠ ':') : c ∈ s ↔ ∃ g ∈ fields s, c ∈ g := by
  rw [fields]
  split
  case isTrue empty => simp [empty]
  case isFalse =>
    constructor
    · intro mem
      exact exists_mem_splitOn mem other
    · rintro ⟨g, listed, mem⟩
      exact (of_mem_splitOn listed mem).1

theorem lastField_eq (cut : fields s = gs ++ [q]) : lastField s = q := by
  rw [fields] at cut
  split at cut
  · simp at cut
  · simp [lastField, cut]

theorem splitOn_colon_cons (b : Text) : (':' :: b).splitOn ':' = [] :: b.splitOn ':' :=
  splitOn_append_cons ':' [] b

theorem lastField_append (a b : Text) : lastField (a ++ ':' :: ':' :: b) = lastField b := by
  obtain ⟨gs, q, final⟩ :=
    (List.eq_nil_or_concat (b.splitOn ':')).resolve_left (List.splitOn_ne_nil ':' b)
  have whole : (a ++ ':' :: ':' :: b).splitOn ':' = (a.splitOn ':' ++ [] :: gs) ++ [q] := by
    rw [splitOn_append_cons, splitOn_colon_cons, final]
    simp
  rw [lastField, lastField, whole, final, List.concat_eq_append, List.getLastD_concat,
    List.getLastD_concat]

/-- Of groups that the page takes, the server takes those that end plainly. -/
theorem groups_strict : Groups (fun q => isIPv4 q = true) (fields s) n ↔
      Groups (fun q => isIPv4Dotted q = true) (fields s) n ∧ EndsPlain s := by
  constructor
  · intro groups
    generalize cut : fields s = gs at groups
    cases groups with
    | plain gs hex =>
      refine ⟨.plain gs hex, fun dot => ?_⟩
      obtain ⟨g, listed, mem⟩ := (mem_fields (by decide)).mp dot
      exact absurd mem (dot_notMem_of_isGroup (hex g (cut ▸ listed)))
    | dotted gs q hex quad =>
      obtain ⟨dotted, plain⟩ := isIPv4_iff.mp quad
      refine ⟨.dotted gs q hex dotted, fun _ => ?_⟩
      rw [lastField_eq cut]
      exact ⟨dot_mem_of_isIPv4Dotted dotted, plain⟩
  · rintro ⟨groups, ends⟩
    generalize cut : fields s = gs at groups
    cases groups with
    | plain gs hex => exact .plain gs hex
    | dotted gs q hex dotted =>
      refine .dotted gs q hex (isIPv4_iff.mpr ⟨dotted, ?_⟩)
      have dot : '.' ∈ s :=
        (mem_fields (by decide)).mpr ⟨q, by simp [cut], dot_mem_of_isIPv4Dotted dotted⟩
      rw [← lastField_eq cut]
      exact (ends dot).2

/-! ## IPv6 -/

theorem Groups.ne_nil_of_mem (groups : Groups (fun q => Page.isIPv4Dotted q = true) gs n) :
    [] ∉ gs := by
  cases groups with
  | plain gs hex => exact fun mem => isGroup_ne_nil (hex [] mem) rfl
  | dotted gs q hex quad =>
    rw [List.mem_append, List.mem_singleton]
    rintro (mem | rfl)
    · exact isGroup_ne_nil (hex [] mem) rfl
    · exact absurd (dot_mem_of_isIPv4Dotted quad) (by simp)

theorem Groups.le_length (groups : Groups quad gs n) : n ≤ gs.length + 1 := by
  cases groups <;> simp

variable {a : Text}

/-- A second `::` leaves an empty field. -/
theorem nil_mem_fields {b : Text} {j : Nat} (later : a.length < j)
    (last : lastIndexOf [':', ':'] (a ++ ':' :: ':' :: b) = some j) : [] ∈ fields b := by
  obtain ⟨c, d, whole, rfl⟩ := cut_of_lastIndexOf last
  rw [List.append_assoc, List.append_eq_append_iff] at whole
  rcases whole with ⟨c, rfl, rest⟩ | ⟨c, rfl, -⟩
  · rw [List.length_append] at later
    rcases c with _ | ⟨x, _ | ⟨y, c⟩⟩
    · simp at later
    · obtain ⟨-, rfl⟩ : ':' = x ∧ b = ':' :: d := by simpa using rest
      simp [fields, splitOn_colon_cons]
    · obtain ⟨-, -, rfl⟩ : ':' = x ∧ ':' = y ∧ b = c ++ ':' :: ':' :: d := by simpa using rest
      simp [fields, splitOn_append_cons, splitOn_colon_cons]
  · simp only [List.length_append] at later
    omega

theorem fields_eq_nil : fields s = [] ↔ s = [] := by
  rw [fields]
  split
  case isTrue empty => simp [empty]
  case isFalse some_char => simp [some_char, List.splitOn_ne_nil]

theorem page_isIPv6_iff : Page.isIPv6Address s = true ↔
    ':' ∈ s ∧ indexOf [':', ':'] s = lastIndexOf [':', ':'] s ∧
      [] ∉ (groups s (indexOf [':', ':'] s)).1 ∧ [] ∉ (groups s (indexOf [':', ':'] s)).2 ∧
      fits (indexOf [':', ':'] s).isSome ((groups s (indexOf [':', ':'] s)).1 ++
        (groups s (indexOf [':', ':'] s)).2) = true := by
  simp only [isIPv6Address]
  grind

theorem page_isIPv6_uncompressed (absent : indexOf [':', ':'] s = none) :
    isIPv6Address s = true ↔ Groups (fun q => isIPv4Dotted q = true) (fields s) 8 := by
  rw [page_isIPv6_iff, absent]
  simp only [groups, Option.isSome_none, List.append_nil, List.not_mem_nil, not_false_eq_true,
    true_and, fits_iff, Bool.false_eq_true, if_false, exists_eq_right]
  constructor
  · rintro ⟨colon, -, -, groups⟩
    rwa [fields, if_neg (List.ne_nil_of_mem colon)]
  · intro groups
    have some_char : s ≠ [] := by
      rintro rfl
      have few := groups.le_length
      simp [fields] at few
    have cut : fields s = s.splitOn ':' := if_neg some_char
    have colon : ':' ∈ s := by
      by_contra none_left
      have few := groups.le_length
      simp [cut, List.splitOn_eq_singleton none_left] at few
    rw [cut] at groups
    exact ⟨colon, (lastIndexOf_none_of_indexOf_none absent).symm, groups.ne_nil_of_mem, groups⟩

theorem page_isIPv6_compressed {b : Text}
    (found : indexOf [':', ':'] (a ++ ':' :: ':' :: b) = some a.length) :
    isIPv6Address (a ++ ':' :: ':' :: b) = true ↔
      ∃ n, Groups (fun q => isIPv4Dotted q = true) (fields a ++ fields b) n ∧ n < 8 := by
  have sides : groups (a ++ ':' :: ':' :: b) (some a.length) = (fields a, fields b) := by
    simp [groups, fields]
  rw [page_isIPv6_iff, found, sides]
  simp only [Option.isSome_some, fits_iff, if_true]
  constructor
  · rintro ⟨-, -, -, -, fits⟩
    exact fits
  · rintro ⟨n, groups, few⟩
    have filled := groups.ne_nil_of_mem
    rw [List.mem_append, not_or] at filled
    obtain ⟨j, last, le⟩ := le_lastIndexOf found
    have unique : a.length = j := by
      by_contra apart
      exact filled.2 (nil_mem_fields (by omega) last)
    exact ⟨by simp, by rw [last, unique], filled.1, filled.2, n, groups, few⟩

theorem dot_notMem_of_groups (hex : ∀ g ∈ fields s, isGroup g = true) : '.' ∉ s := by
  intro dot
  obtain ⟨g, listed, mem⟩ := (mem_fields (by decide)).mp dot
  exact dot_notMem_of_isGroup (hex g listed) mem

/-- Around a `::` the server wants hexadecimal groups before and a plain end after it. -/
theorem groups_compressed {b : Text} : ((∀ g ∈ fields a, isGroup g = true) ∧
      ∃ m, Groups (fun q => isIPv4 q = true) (fields b) m ∧ (fields a).length + m < 8) ↔
    (∃ n, Groups (fun q => isIPv4Dotted q = true) (fields a ++ fields b) n ∧ n < 8) ∧
      EndsPlain (a ++ ':' :: ':' :: b) := by
  have dots : '.' ∈ a ++ ':' :: ':' :: b ↔ '.' ∈ a ∨ '.' ∈ b := by simp
  rw [EndsPlain, lastField_append, dots]
  by_cases empty : b = []
  · -- Nothing follows the colons: a quad before them would have to end the text.
    subst empty
    have none_left : fields [] = [] := rfl
    rw [none_left, List.append_nil]
    constructor
    · rintro ⟨hex, m, groups, few⟩
      refine ⟨⟨_, .plain _ hex, by omega⟩, fun dot => ?_⟩
      exact absurd dot (by simp [dot_notMem_of_groups hex])
    · rintro ⟨⟨n, groups, few⟩, ends⟩
      have undotted : '.' ∉ a := fun dot => absurd (ends (.inl dot)).1 (by decide)
      generalize cut : fields a = gs at groups
      cases groups with
      | plain gs hex => exact ⟨hex, 0, .plain [] (by simp), by simpa using few⟩
      | dotted gs q hex quad =>
        have dot : '.' ∈ a :=
          (mem_fields (by decide)).mpr ⟨q, by simp [cut], dot_mem_of_isIPv4Dotted quad⟩
        exact absurd dot undotted
  · have more : fields b ≠ [] := fun none_left => empty (fields_eq_nil.mp none_left)
    constructor
    · rintro ⟨hex, m, groups, few⟩
      obtain ⟨groups, ends⟩ := groups_strict.mp groups
      refine ⟨⟨_, (groups_append more).mpr ⟨hex, m, groups, rfl⟩, few⟩, fun dot => ?_⟩
      exact ends (dot.resolve_left (dot_notMem_of_groups hex))
    · rintro ⟨⟨n, groups, few⟩, ends⟩
      obtain ⟨hex, m, after, rfl⟩ := (groups_append more).mp groups
      exact ⟨hex, m, groups_strict.mpr ⟨after, fun dot => ends (.inr dot)⟩, few⟩

/-- The server reads an address exactly if the page does and it ends plainly. -/
theorem isIPv6_iff : isIPv6 s = true ↔ Page.isIPv6Address s = true ∧ EndsPlain s := by
  cases found : indexOf [':', ':'] s with
  | none =>
    rw [page_isIPv6_uncompressed found, ← groups_strict, isIPv6, found, decide_eq_true_eq,
      units_eq_some]
  | some i =>
    obtain ⟨a, b, whole, rfl⟩ := cut_of_indexOf found
    rw [List.append_assoc] at whole
    subst whole
    rw [show [':', ':'] ++ b = ':' :: ':' :: b from rfl] at found ⊢
    have before : (a ++ ':' :: ':' :: b).take a.length = a := by simp
    have after : (a ++ ':' :: ':' :: b).drop (a.length + 2) = b := by simp
    rw [page_isIPv6_compressed found, ← groups_compressed, isIPv6, found]
    simp only [before, after, Bool.and_eq_true, List.all_eq_true, Option.any_eq_true,
      decide_eq_true_eq, units_eq_some]

/-! ## The characters of an address -/

theorem Groups.chars (groups : Groups (fun q => Page.isIPv4Dotted q = true) gs n) (listed : g ∈ gs)
    (mem : c ∈ g) : isHex c = true ∨ c = '.' := by
  cases groups with
  | plain gs hex => exact .inl (isHex_of_mem_isGroup (hex g listed) mem)
  | dotted gs q hex quad =>
    rcases List.mem_append.mp listed with listed | listed
    · exact .inl (isHex_of_mem_isGroup (hex g listed) mem)
    · rw [List.mem_singleton.mp listed] at mem
      exact (mem_isIPv4Dotted quad mem).imp_left fun digit => by simp [isHex, digit]

theorem page_isIPv6_chars (address : Page.isIPv6Address s = true) (mem : c ∈ s) :
    isHex c = true ∨ c = '.' ∨ c = ':' := by
  by_cases colon : c = ':'
  · exact .inr (.inr colon)
  suffices listed : isHex c = true ∨ c = '.' from listed.imp_right .inl
  cases found : indexOf [':', ':'] s with
  | none =>
    obtain ⟨g, listed, inside⟩ := (mem_fields colon).mp mem
    exact ((page_isIPv6_uncompressed found).mp address).chars listed inside
  | some i =>
    obtain ⟨a, b, whole, rfl⟩ := cut_of_indexOf found
    rw [List.append_assoc] at whole
    subst whole
    obtain ⟨n, groups, -⟩ := (page_isIPv6_compressed found).mp address
    have side : c ∈ a ∨ c ∈ b := by simpa [colon] using mem
    rcases side with mem | mem
    · obtain ⟨g, listed, inside⟩ := (mem_fields colon).mp mem
      exact groups.chars (List.mem_append_left _ listed) inside
    · obtain ⟨g, listed, inside⟩ := (mem_fields colon).mp mem
      exact groups.chars (List.mem_append_right _ listed) inside

theorem plain_of_isIPv6 (address : Page.isIPv6Address s = true) (mem : c ∈ s) : Plain c := by
  rcases page_isIPv6_chars address mem with hex | rfl | rfl
  · exact plain_of_isHex hex
  · decide
  · decide

/-! ## Literals and hosts -/

/-- A literal without its zone. -/
def addressPart (s : Text) : Text :=
  match indexOf ['%'] s with
  | none => s
  | some i => s.take i

theorem addressPart_of_notMem (unzoned : '%' ∉ s) : addressPart s = s := by
  rw [addressPart, indexOf_eq_none.mpr unzoned]

theorem addressPart_append (first : '%' ∉ a) (zone : Text) :
    addressPart (a ++ '%' :: zone) = a := by
  rw [addressPart, indexOf_eq_some.mpr ⟨a, zone, rfl, first, rfl⟩]
  simp

theorem addressPart_prefix (s : Text) : addressPart s <+: s := by
  rw [addressPart]
  split
  · exact List.prefix_refl s
  · exact List.take_prefix _ s

theorem page_isIPv6Literal_append (first : '%' ∉ a) (zone : Text) :
    isIPv6Literal (a ++ '%' :: zone) = true ↔ zone ≠ [] ∧ isIPv6Address a = true := by
  rw [isIPv6Literal, indexOf_eq_some.mpr ⟨a, zone, rfl, first, rfl⟩]
  simp

theorem percent_notMem (percent : '%' ∈ s) : ¬Page.isIPv4Dotted s = true := by
  intro quad
  rcases mem_isIPv4Dotted quad percent with digit | dot
  · exact absurd digit (by decide)
  · exact absurd dot (by decide)

theorem parseAddr_append (first : '%' ∉ a) (zone : Text) :
    parseAddr (a ++ '%' :: zone) = true ↔ zone ≠ [] ∧ isIPv6 a = true := by
  have unquoted : ¬isIPv4 (a ++ '%' :: zone) = true := fun quad =>
    percent_notMem (by simp) (isIPv4_iff.mp quad).1
  rw [parseAddr, indexOf_eq_some.mpr ⟨a, zone, rfl, first, rfl⟩]
  simp [unquoted]

theorem endsPlain_of_isIPv4Dotted (quad : Page.isIPv4Dotted q = true) :
    EndsPlain q ↔ PlainQuad q := by
  have uncut : ':' ∉ q := by
    intro colon
    rcases mem_isIPv4Dotted quad colon with digit | dot
    · exact absurd digit (by decide)
    · exact absurd dot (by decide)
  have whole : lastField q = q := by simp [lastField, List.splitOn_eq_singleton uncut]
  simp [EndsPlain, whole, dot_mem_of_isIPv4Dotted quad]

/-- The server's literals are the page's that end plainly. -/
theorem parseAddr_iff : parseAddr s = true ↔
    (isIPv4Dotted s = true ∨ isIPv6Literal s = true) ∧ EndsPlain (addressPart s) := by
  by_cases zoned : '%' ∈ s
  · obtain ⟨i, found⟩ := Option.ne_none_iff_exists'.mp (mt indexOf_eq_none.mp (not_not.mpr zoned))
    obtain ⟨a, zone, rfl, first, rfl⟩ := indexOf_eq_some.mp found
    rw [parseAddr_append first, page_isIPv6Literal_append first, addressPart_append first,
      isIPv6_iff]
    have unquoted : ¬isIPv4Dotted (a ++ '%' :: zone) = true := percent_notMem zoned
    tauto
  · rw [parseAddr, isIPv6Literal, addressPart_of_notMem zoned, indexOf_eq_none.mpr zoned,
      Bool.or_eq_true, isIPv4_iff, isIPv6_iff, or_and_right]
    have quads : isIPv4Dotted s = true → (EndsPlain s ↔ PlainQuad s) := endsPlain_of_isIPv4Dotted
    tauto

theorem page_isIPv6Address_addressPart (literal : Page.isIPv6Literal s = true) :
    isIPv6Address (addressPart s) = true := by
  rw [isIPv6Literal] at literal
  rw [addressPart]
  grind

/-! ## Hosts -/

theorem hostLabel_of_isOctet {p : Text} (octet : isOctet p = true) :
    p ≠ [] ∧ p.length ≤ 3 ∧ hostLabel p = true := by
  simp only [isOctet, Bool.and_eq_true, decide_eq_true_eq, List.all_eq_true] at octet
  obtain ⟨⟨⟨some_digit, few⟩, digits⟩, -⟩ := octet
  have words : ∀ c ∈ p, isWord c = true := fun c mem => by
    simp [isWord, Char.isAlphanum, digits c mem]
  have some_char : p ≠ [] := List.ne_nil_of_length_pos some_digit
  have first := words _ (List.head_mem some_char)
  have last := words _ (List.getLast_mem some_char)
  refine ⟨some_char, few, ?_⟩
  simp only [hostLabel, List.head?_eq_some_head some_char, List.getLast?_eq_some_getLast some_char,
    Option.any_some, first, last, Bool.true_and, List.all_eq_true]
  exact fun c mem => by simp [words c mem]

/-- A dotted quad is a host name, with leading zeros or without. -/
theorem isHostname_of_isIPv4Dotted (quad : Page.isIPv4Dotted s = true) : isHostname s = true := by
  have chars : ∀ c ∈ s, Plain c := fun c mem => plain_of_isIPv4Dotted quad mem
  have dot := dot_mem_of_isIPv4Dotted quad
  simp only [isIPv4Dotted, Bool.and_eq_true, decide_eq_true_eq, List.all_eq_true] at quad
  obtain ⟨four, octets⟩ := quad
  have undotted : trimDot s = s := by
    rw [trimDot, if_neg]
    intro final
    obtain ⟨t, rfl⟩ := List.getLast?_eq_some_iff.mp final
    have last := octets [] (by simp [splitOn_append_cons])
    cases last
  have short : length s ≤ hostnameMaxLen := by
    obtain ⟨p, ps, cut⟩ := List.exists_cons_of_ne_nil (List.splitOn_ne_nil '.' s)
    have few : ∀ p ∈ s.splitOn '.', p.length ≤ 3 := fun p listed =>
      (hostLabel_of_isOctet (octets p listed)).2.1
    rw [cut, List.forall_mem_cons] at few
    rw [cut, List.length_cons] at four
    have bound := length_le_of_splitOn cut few.2
    rw [(length_of_plain chars).2, hostnameMaxLen]
    omega
  have bounds : ¬(s = [] ∨ length s > hostnameMaxLen) := by
    rw [not_or, not_lt]
    exact ⟨List.ne_nil_of_mem dot, short⟩
  rw [isHostname, if_neg bounds, undotted, List.all_eq_true]
  intro p listed
  obtain ⟨some_char, few, label⟩ := hostLabel_of_isOctet (octets p listed)
  have plain := (length_of_plain fun c mem => chars c (of_mem_splitOn listed mem).1).2
  have fits : ¬length p > hostLabelMaxLen := by
    rw [plain, hostLabelMaxLen]
    omega
  simp [some_char, label, fits]

/-- In brackets or with colons, an address ends plainly. -/
def PlainHost (host : Text) : Prop :=
  host.head? = some '[' ∨ ':' ∈ addressPart (unbracket host) →
    EndsPlain (addressPart (unbracket host))

instance (host : Text) : Decidable (PlainHost host) := inferInstanceAs (Decidable (_ → _))

variable {host : Text}

theorem unbracket_of_head {host : Text} (bare : host.head? ≠ some '[') : unbracket host = host := by
  simp [unbracket, bare]

theorem page_isIPLiteral_iff : Page.isIPLiteral host = true ↔
    Page.isIPv4Dotted (unbracket host) = true ∨ Page.isIPv6Literal (unbracket host) = true := by
  by_cases empty : unbracket host = []
  · simp only [Page.isIPLiteral, empty, if_true]
    decide
  · simp [Page.isIPLiteral, empty]

/-- Of the hosts that the page takes, the server takes the plain ones. -/
theorem host_iff : (isIPLiteral host || isHostname host) = true ↔
    (Page.isIPLiteral host || isHostname host) = true ∧ PlainHost host := by
  rw [Bool.or_eq_true, Bool.or_eq_true, isIPLiteral, parseAddr_iff, page_isIPLiteral_iff, PlainHost]
  by_cases named : isHostname host = true
  · obtain ⟨-, chars⟩ := isNameChar_of_isHostname named
    have bare : host.head? ≠ some '[' := fun opened =>
      absurd (chars '[' (List.mem_of_mem_head? opened)) (by decide)
    have uncut : ':' ∉ addressPart host := fun colon =>
      absurd (chars ':' (( addressPart_prefix host).subset colon)) (by decide)
    simp [named, bare, uncut, unbracket_of_head bare]
  · by_cases special : host.head? = some '[' ∨ ':' ∈ addressPart (unbracket host)
    · simp [named, special]
    · rw [not_or] at special
      rw [unbracket_of_head special.1] at special ⊢
      have unquoted : ¬isIPv4Dotted host = true := mt isHostname_of_isIPv4Dotted named
      have uncolumned : ¬isIPv6Literal host = true := fun six =>
        special.2 (page_isIPv6_iff.mp (page_isIPv6Address_addressPart six)).1
      simp [named, unquoted, uncolumned]

end Kconmon.Console.Address
