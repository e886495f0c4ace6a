import Kconmon.Checker.Allowlist

/-!
# Only allowed addresses are dialled

An address is inside a range when the two are of one family and agree on the range's leading bits.
All that a decision takes from the two lists is which addresses they cover (`Inside`), so lists that
name the same networks decide alike however they are written. All that it takes from an answer is
its unmapped form, once it has no zone.
-/
namespace Kconmon.Checker
open Lib
open Console.Import (trimSpace)

/-! ## Ranges as sets of addresses -/

namespace Prefix

/-- One family, and equal leading bits. -/
def Covers : Prefix → Addr → Prop
  | v4 net bits, .v4 ip => AgreeOn bits ip net
  | v6 net bits, .v6 ip zone => zone = "" ∧ AgreeOn bits ip net
  | _, _ => False

/-- The two differ in host bits at most. -/
def SameNetwork : Prefix → Prefix → Prop
  | v4 net bits, v4 net' bits' => bits = bits' ∧ AgreeOn bits net net'
  | v6 net bits, v6 net' bits' => bits = bits' ∧ AgreeOn bits net net'
  | _, _ => False

theorem contains_iff (p : Prefix) (ip : Addr) : p.contains ip = true ↔ p.Covers ip := by
  cases p with
  | v4 net bits =>
    cases ip with
    | v4 ip => simp [contains, Covers, ushiftRight_xor_eq_zero_iff (Fin.is_le bits)]
    | invalid | v6 => simp [contains, Covers]
  | v6 net bits =>
    cases ip with
    | v6 ip zone =>
      by_cases zoned : zone = ""
      · subst zoned
        simp [contains, Covers, ushiftRight_xor_eq_zero_iff (Fin.is_le bits)]
      · simp [contains, Covers, zoned]
    | invalid | v4 => simp [contains, Covers]

theorem SameNetwork.covers_iff {p q : Prefix} (same : p.SameNetwork q) (ip : Addr) :
    p.Covers ip ↔ q.Covers ip := by
  cases p <;> cases q <;> simp only [SameNetwork] at same
  all_goals
    obtain ⟨rfl, agree⟩ := same
    cases ip <;> simp only [Covers]
  · exact ⟨fun inside => inside.trans agree, fun inside => inside.trans agree.symm⟩
  · exact and_congr_right fun _ =>
      ⟨fun inside => inside.trans agree, fun inside => inside.trans agree.symm⟩

theorem sameNetwork_masked (p : Prefix) : p.masked.SameNetwork p := by
  cases p with
  | v4 net bits => exact ⟨rfl, agreeOn_keepFirst (Fin.is_le bits) net⟩
  | v6 net bits => exact ⟨rfl, agreeOn_keepFirst (Fin.is_le bits) net⟩

theorem SameNetwork.refl (p : Prefix) : p.SameNetwork p := by
  cases p <;> exact ⟨rfl, .refl _⟩

end Prefix

/-! ## What the lists say -/

section Lists

variable (lib : Netip)

/-- Some entry of the list is a range around the address. -/
def Inside (raw : List String) (ip : Addr) : Prop :=
  ∃ s ∈ raw, ∃ p, lib.parsePrefix (trimSpace s) = .ok p ∧ p.Covers ip

/-- Both entries are ranges, and they differ in host bits at most. -/
def SameEntry (s s' : String) : Prop :=
  ∃ p p', lib.parsePrefix (trimSpace s) = .ok p ∧ lib.parsePrefix (trimSpace s') = .ok p' ∧
    p.SameNetwork p'

/-- The same networks, in any order, any number of times and with any host bits. -/
def SameNetworks (raw raw' : List String) : Prop :=
  (∀ s ∈ raw, ∃ s' ∈ raw', SameEntry lib s s') ∧ ∀ s' ∈ raw', ∃ s ∈ raw, SameEntry lib s s'

/-- The entry is accepted and the range is kept for it. -/
def Keeps (s : String) (kept : Prefix) : Prop :=
  ∃ p, lib.parsePrefix (trimSpace s) = .ok p ∧ p.addr.is4In6 = false ∧ p.masked = kept

variable {lib} {field : String} {i : ℕ} {raw raw' : List String} {out : List Prefix}

theorem parseEntry_ok_iff {s : String} {p : Prefix} :
    lib.parseEntry field i s = .ok p ↔ Keeps lib s p := by
  unfold Netip.parseEntry Keeps
  cases lib.parsePrefix (trimSpace s) with
  | error err => simp
  | ok q =>
    simp only [Except.ok.injEq, exists_eq_left']
    cases mapped : q.addr.is4In6 with
    | false => simp
    | true => simp

theorem parsePrefixes_ok_iff :
    lib.parsePrefixes field i raw = .ok out ↔ List.Forall₂ (Keeps lib) raw out := by
  induction raw generalizing i out with
  | nil => simp [Netip.parsePrefixes, eq_comm]
  | cons s raw ih =>
    rw [List.forall₂_cons_left_iff]
    have entry (p) : Keeps lib s p ↔ lib.parseEntry field i s = .ok p := parseEntry_ok_iff.symm
    simp only [← ih (i := i + 1), entry]
    rw [Netip.parsePrefixes]
    cases lib.parseEntry field i s with
    | error err => simp [bind, Except.bind]
    | ok p =>
      cases lib.parsePrefixes field (i + 1) raw with
      | error err => simp [bind, Except.bind]
      | ok rest => simp [bind, Except.bind, pure, Except.pure, eq_comm]

/-- The ranges kept for an accepted list cover what its entries cover. -/
theorem any_contains_iff (keeps : List.Forall₂ (Keeps lib) raw out) (ip : Addr) :
    out.any (·.contains ip) = true ↔ Inside lib raw ip := by
  induction keeps with
  | nil => simp [Inside]
  | @cons s p raw out kept _ ih =>
    obtain ⟨q, parsed, -, rfl⟩ := kept
    rw [List.any_cons, Bool.or_eq_true, ih, Prefix.contains_iff,
      (Prefix.sameNetwork_masked q).covers_iff]
    simp [Inside, parsed]

theorem SameNetworks.inside_iff (same : SameNetworks lib raw raw') (ip : Addr) :
    Inside lib raw ip ↔ Inside lib raw' ip := by
  constructor
  · rintro ⟨s, mem, p, parsed, covers⟩
    obtain ⟨s', mem', q, q', parsed', parsed'', same⟩ := same.1 s mem
    obtain rfl : p = q := by simpa [parsed] using parsed'
    exact ⟨s', mem', q', parsed'', (same.covers_iff ip).mp covers⟩
  · rintro ⟨s', mem', p, parsed, covers⟩
    obtain ⟨s, mem, q, q', parsed', parsed'', same⟩ := same.2 s' mem'
    obtain rfl : p = q' := by simpa [parsed] using parsed''
    exact ⟨s, mem, q, parsed', (same.covers_iff ip).mpr covers⟩

/-- A list is accepted when each of its entries is. -/
theorem exists_keeps_iff :
    (∃ out, List.Forall₂ (Keeps lib) raw out) ↔ ∀ s ∈ raw, ∃ p, Keeps lib s p := by
  induction raw with
  | nil => simp
  | cons s raw ih =>
    simp only [List.forall_mem_cons, ← ih, List.forall₂_cons_left_iff]
    grind

/-- An accepted list names the same networks when it is reordered or has entries repeated. -/
theorem sameNetworks_of_mem_iff (keeps : ∀ s ∈ raw, ∃ p, Keeps lib s p)
    (same : ∀ s, s ∈ raw ↔ s ∈ raw') : SameNetworks lib raw raw' := by
  have self : ∀ s ∈ raw, SameEntry lib s s := by
    intro s mem
    obtain ⟨-, p, parsed, -, -⟩ := keeps s mem
    exact ⟨p, p, parsed, parsed, .refl p⟩
  exact ⟨fun s mem => ⟨s, (same s).mp mem, self s mem⟩,
    fun s mem => ⟨s, (same s).mpr mem, self s ((same s).mpr mem)⟩⟩

theorem newAllowlist_ok_iff {allowed denied : List String} {a : Allowlist} :
    lib.newAllowlist allowed denied = .ok a ↔
      List.Forall₂ (Keeps lib) allowed a.allowed ∧ List.Forall₂ (Keeps lib) denied a.denied := by
  have allowedIff (out) : lib.parsePrefixes "allowedCidrs" 0 allowed = .ok out ↔
      List.Forall₂ (Keeps lib) allowed out := parsePrefixes_ok_iff
  have deniedIff (out) : lib.parsePrefixes "deniedCidrs" 0 denied = .ok out ↔
      List.Forall₂ (Keeps lib) denied out := parsePrefixes_ok_iff
  rw [← allowedIff, ← deniedIff, Netip.newAllowlist]
  obtain ⟨as, ds⟩ := a
  cases lib.parsePrefixes "allowedCidrs" 0 allowed with
  | error err => simp [bind, Except.bind]
  | ok as =>
    cases lib.parsePrefixes "deniedCidrs" 0 denied with
    | error err => simp [bind, Except.bind]
    | ok ds => simp [bind, Except.bind, pure, Except.pure]

end Lists

/-! ## What one address is told -/

namespace Addr

/-- The address itself, or its IPv6 form where it is an IPv4 address. -/
def Remapped (x y : Addr) : Prop := y = x ∨ y = x.mapped

theorem isValid_mapped (x : Addr) : x.mapped.isValid = x.isValid := by cases x <;> rfl

theorem zone_mapped (x : Addr) : x.mapped.zone = x.zone := by cases x <;> rfl

theorem unmap_mapped (x : Addr) : x.mapped.unmap = x.unmap := by
  cases x with
  | invalid | v6 => rfl
  | v4 ip =>
    have high : (0xffff#96 ++ ip) >>> 32 = 0xffff#128 := by
      apply BitVec.eq_of_toNat_eq
      rw [BitVec.toNat_ushiftRight, BitVec.toNat_append, Nat.shiftRight_or_distrib,
        Nat.shiftLeft_shiftRight, Nat.shiftRight_eq_div_pow, Nat.div_eq_of_lt ip.isLt]
      rfl
    have low : (0xffff#96 ++ ip).setWidth 32 = ip := BitVec.setWidth_append_eq_right
    simp [mapped, unmap, is4In6, high, low]

theorem isValid_unmap (x : Addr) : x.unmap.isValid = x.isValid := by
  cases x with
  | invalid | v4 => rfl
  | v6 ip zone =>
    rw [unmap]
    split_ifs <;> rfl

theorem zone_unmap {x : Addr} (plain : x.zone = "") : x.unmap.zone = "" := by
  cases x with
  | invalid | v4 => rfl
  | v6 ip zone =>
    rw [unmap]
    split_ifs
    · rfl
    · exact plain

end Addr

namespace Allowlist

variable {a a' : Allowlist} {x y : Addr}

/-- The two allowlists cover the same addresses. -/
def Same (a a' : Allowlist) : Prop :=
  ∀ ip, a.allowed.any (·.contains ip) = a'.allowed.any (·.contains ip) ∧
    a.denied.any (·.contains ip) = a'.denied.any (·.contains ip)

theorem Same.check_eq (same : a.Same a') (x : Addr) : a.check x = a'.check x := by
  simp only [check, allow, same _]

theorem check_eq_none_iff : a.check x = none ↔
    x.isValid = true ∧ x.zone = "" ∧ a.allowed.any (·.contains x.unmap) = true ∧
      a.denied.any (·.contains x.unmap) = false := by
  have allowed (valid : x.isValid = true) (plain : x.zone = "") : a.allow x =
      (!a.denied.any (·.contains x.unmap) && a.allowed.any (·.contains x.unmap)) := by
    simp only [allow, x.isValid_unmap, Addr.zone_unmap plain, valid, plain]
    cases a.denied.any (·.contains x.unmap) <;> simp
  unfold check
  by_cases valid : x.isValid = true
  · by_cases plain : x.zone = ""
    · simp only [valid, plain, allowed valid plain]
      cases a.denied.any (·.contains x.unmap) <;> cases a.allowed.any (·.contains x.unmap) <;> simp
    · simp [valid, plain]
  · simp [valid]

/-- An answer is decided by its unmapped form. -/
theorem check_mapped (a : Allowlist) (x : Addr) : a.check x.mapped = a.check x := by
  simp only [check, allow, x.isValid_mapped, x.zone_mapped, x.unmap_mapped]

theorem approve_ok_iff {approved addrs l : List Addr} : a.approve approved addrs = .ok l ↔
      (∀ x ∈ addrs, a.check x = none) ∧ l = approved ++ addrs.map Addr.unmap := by
  induction addrs generalizing approved with
  | nil => simp [approve, eq_comm]
  | cons x addrs ih =>
    rw [approve]
    cases refused : a.check x with
    | none => simp [ih, refused]
    | some refusal => simp [refused]

theorem Same.approve_eq (same : a.Same a') (approved addrs : List Addr) :
    a.approve approved addrs = a'.approve approved addrs := by
  induction addrs generalizing approved with
  | nil => rfl
  | cons x addrs ih => simp only [approve, same.check_eq, ih]

theorem approve_remapped (a : Allowlist) {addrs addrs' : List Addr}
    (remapped : List.Forall₂ Addr.Remapped addrs addrs') (approved : List Addr) :
    a.approve approved addrs' = a.approve approved addrs := by
  induction remapped generalizing approved with
  | nil => rfl
  | @cons x y addrs addrs' remapped _ ih =>
    have check : a.check y = a.check x := by
      rcases remapped with rfl | rfl
      · rfl
      · exact a.check_mapped x
    have unmap : y.unmap = x.unmap := by
      rcases remapped with rfl | rfl
      · rfl
      · exact x.unmap_mapped
    simp only [approve, check, unmap, ih]

end Allowlist

/-! ## What a host is told -/

/-- The addresses that are checked for a host: its own, or what the resolver answers. -/
def Answered (lib : Netip) (r : Option Resolver) (host : String) (answers : List Addr) : Prop :=
  trimSpace host ≠ "" ∧ (lib.parseLiteral (trimSpace host) = none →
      ∃ lookup, r = some lookup ∧ lookup (trimSpace host) = some answers) ∧
    ∀ lit, lib.parseLiteral (trimSpace host) = some lit → answers = [lit]

section Hosts

variable {lib : Netip} {a a' : Allowlist} {r : Option Resolver} {host : String}

theorem Answered.resolveAllowed_eq {answers : List Addr} (answered : Answered lib r host answers) :
    resolveAllowed lib (some a) r host =
      if answers.isEmpty then .error .noAddresses else a.approve [] answers := by
  obtain ⟨named, resolved, literal⟩ := answered
  cases lit : lib.parseLiteral (trimSpace host) with
  | none =>
    obtain ⟨lookup, rfl, found⟩ := resolved lit
    simp only [resolveAllowed, named, if_false, lit, found]
  | some x =>
    obtain rfl := literal x lit
    simp only [resolveAllowed, named, if_false, lit, Allowlist.approve, List.isEmpty_cons]
    cases a.check x <;> simp

theorem answered_of_resolveAllowed_ok {l : List Addr}
    (dialled : resolveAllowed lib (some a) r host = .ok l) :
    ∃ answers, Answered lib r host answers := by
  by_cases named : trimSpace host = ""
  · simp [resolveAllowed, named] at dialled
  cases lit : lib.parseLiteral (trimSpace host) with
  | some x => exact ⟨[x], named, by simp [lit], by simp [lit]⟩
  | none =>
    cases r with
    | none => simp [resolveAllowed, named, lit] at dialled
    | some lookup =>
      cases found : lookup (trimSpace host) with
      | none => simp [resolveAllowed, named, lit, found] at dialled
      | some answers => exact ⟨answers, named, fun _ => ⟨lookup, rfl, found⟩, by simp [lit]⟩

theorem Allowlist.Same.resolveAllowed_eq (same : a.Same a') (r : Option Resolver) (host : String) :
    resolveAllowed lib (some a') r host = resolveAllowed lib (some a) r host := by
  simp only [resolveAllowed, same.check_eq, same.approve_eq]

variable {allowed denied : List String}

section
variable (accepted : lib.newAllowlist allowed denied = .ok a)
include accepted

theorem check_eq_none_iff_inside {x : Addr} :
    a.check x = none ↔ x.zone = "" ∧ x.unmap.isValid = true ∧ x.unmap.zone = "" ∧
      Inside lib allowed x.unmap ∧ ¬Inside lib denied x.unmap := by
  obtain ⟨keepsAllowed, keepsDenied⟩ := newAllowlist_ok_iff.mp accepted
  rw [Allowlist.check_eq_none_iff, any_contains_iff keepsAllowed, ← Bool.not_eq_true,
    any_contains_iff keepsDenied, x.isValid_unmap]
  have := x.zone_unmap
  tauto

theorem resolveAllowed_ok_iff {l : List Addr} : resolveAllowed lib (some a) r host = .ok l ↔
      ∃ answers, Answered lib r host answers ∧ answers ≠ [] ∧ l = answers.map Addr.unmap ∧
        (∀ x ∈ answers, x.zone = "") ∧ ∀ ip ∈ l, ip.isValid = true ∧ ip.zone = "" ∧
          Inside lib allowed ip ∧ ¬Inside lib denied ip := by
  constructor
  · intro dialled
    obtain ⟨answers, answered⟩ := answered_of_resolveAllowed_ok dialled
    rw [answered.resolveAllowed_eq] at dialled
    split_ifs at dialled with empty
    obtain ⟨passed, rfl⟩ := Allowlist.approve_ok_iff.mp dialled
    have passed := fun x mem => (check_eq_none_iff_inside accepted).mp (passed x mem)
    refine ⟨answers, answered, by simpa using empty, rfl, fun x mem => (passed x mem).1, ?_⟩
    intro ip mem
    obtain ⟨x, answer, rfl⟩ := List.mem_map.mp mem
    exact (passed x answer).2
  · rintro ⟨answers, answered, nonempty, rfl, plain, passed⟩
    rw [answered.resolveAllowed_eq, if_neg (by simpa using nonempty), Allowlist.approve_ok_iff]
    refine ⟨fun x mem => (check_eq_none_iff_inside accepted).mpr ⟨plain x mem, ?_⟩, rfl⟩
    exact passed _ (List.mem_map_of_mem mem)

theorem same_of_sameNetworks {allowed' denied' : List String}

    (accepted' : lib.newAllowlist allowed' denied' = .ok a')
    (sameAllowed : SameNetworks lib allowed allowed')
    (sameDenied : SameNetworks lib denied denied') : a.Same a' := by
  obtain ⟨keepsAllowed, keepsDenied⟩ := newAllowlist_ok_iff.mp accepted
  obtain ⟨keepsAllowed', keepsDenied'⟩ := newAllowlist_ok_iff.mp accepted'
  intro ip
  constructor <;> rw [Bool.eq_iff_iff]
  · rw [any_contains_iff keepsAllowed, any_contains_iff keepsAllowed', sameAllowed.inside_iff]
  · rw [any_contains_iff keepsDenied, any_contains_iff keepsDenied', sameDenied.inside_iff]

/-- A list that is reordered or has entries repeated is still accepted. -/
theorem newAllowlist_of_mem_iff {allowed' denied' : List String}

    (sameAllowed : ∀ s, s ∈ allowed ↔ s ∈ allowed') (sameDenied : ∀ s, s ∈ denied ↔ s ∈ denied') :
    ∃ a', lib.newAllowlist allowed' denied' = .ok a' ∧ a.Same a' := by
  obtain ⟨keepsAllowed, keepsDenied⟩ := newAllowlist_ok_iff.mp accepted
  have eachAllowed := exists_keeps_iff.mp ⟨_, keepsAllowed⟩
  have eachDenied := exists_keeps_iff.mp ⟨_, keepsDenied⟩
  obtain ⟨outAllowed, keepsAllowed'⟩ := exists_keeps_iff.mpr
    fun s mem => eachAllowed s ((sameAllowed s).mpr mem)
  obtain ⟨outDenied, keepsDenied'⟩ := exists_keeps_iff.mpr
    fun s mem => eachDenied s ((sameDenied s).mpr mem)
  have accepted' : lib.newAllowlist allowed' denied' = .ok ⟨outAllowed, outDenied⟩ :=
    newAllowlist_ok_iff.mpr ⟨keepsAllowed', keepsDenied'⟩
  exact ⟨_, accepted', same_of_sameNetworks accepted accepted'
    (sameNetworks_of_mem_iff eachAllowed sameAllowed)
    (sameNetworks_of_mem_iff eachDenied sameDenied)⟩

end

/-- Addresses are returned when the host is an address or resolves to some, none of them has a zone
and each is, unmapped, inside an allowed range and no denied one; they are returned unmapped and in
order. Neither the form of the answers nor the way the ranges are written matters. -/
theorem resolveAllowed_only_inside (accepted : lib.newAllowlist allowed denied = .ok a)
    (r : Option Resolver) (host : String) : (∀ l, resolveAllowed lib (some a) r host = .ok l ↔
      ∃ answers, Answered lib r host answers ∧ answers ≠ [] ∧ l = answers.map Addr.unmap ∧
        (∀ x ∈ answers, x.zone = "") ∧ ∀ ip ∈ l, ip.isValid = true ∧ ip.zone = "" ∧
          Inside lib allowed ip ∧ ¬Inside lib denied ip) ∧
    (∀ r' host' answers answers', Answered lib r host answers → Answered lib r' host' answers' →
      List.Forall₂ Addr.Remapped answers answers' →
        resolveAllowed lib (some a) r' host' = resolveAllowed lib (some a) r host) ∧
    (∀ allowed' denied', (∀ s, s ∈ allowed ↔ s ∈ allowed') → (∀ s, s ∈ denied ↔ s ∈ denied') →
      ∃ a', lib.newAllowlist allowed' denied' = .ok a' ∧
        resolveAllowed lib (some a') r host = resolveAllowed lib (some a) r host) ∧
    ∀ allowed' denied' a', lib.newAllowlist allowed' denied' = .ok a' →
      SameNetworks lib allowed allowed' → SameNetworks lib denied denied' →
        resolveAllowed lib (some a') r host = resolveAllowed lib (some a) r host := by
  refine ⟨fun l => resolveAllowed_ok_iff accepted, ?_, ?_, ?_⟩
  · intro r' host' answers answers' answered answered' remapped
    have empty : answers'.isEmpty = answers.isEmpty := by
      cases remapped <;> rfl
    rw [answered.resolveAllowed_eq, answered'.resolveAllowed_eq, empty, a.approve_remapped remapped]
  · intro allowed' denied' sameAllowed sameDenied
    obtain ⟨a', accepted', same⟩ := newAllowlist_of_mem_iff accepted sameAllowed sameDenied
    exact ⟨a', accepted', same.resolveAllowed_eq r host⟩
  · intro allowed' denied' a' accepted' sameAllowed sameDenied
    exact (same_of_sameNetworks accepted accepted' sameAllowed sameDenied).resolveAllowed_eq r host

end Hosts

def tenOnly : Netip where
  parseAddr _ := none
  parsePrefix s := if s = "10.0.0.0/8" then .ok (.v4 0x0a000000#32 8) else .error "no CIDR"
  quote s := s

/-- A name that resolves to the IPv6 form of `10.1.2.3` is dialled there. -/
theorem resolveAllowed_only_inside_tenOnly :
    resolveAllowed tenOnly (some ⟨[.v4 0x0a000000#32 8], []⟩)
      (some fun _ => some [(Addr.v4 0x0a010203#32).mapped]) "db" = .ok [.v4 0x0a010203#32] := by
  have accepted : tenOnly.newAllowlist [" 10.0.0.0/8"] [] = .ok ⟨[.v4 0x0a000000#32 8], []⟩ := rfl
  have inside : Inside tenOnly [" 10.0.0.0/8"] (.v4 0x0a010203#32) :=
    ⟨_, List.mem_singleton_self _, .v4 0x0a000000#32 8, by decide, by
      change ∀ i < 8, _
      decide⟩
  refine ((resolveAllowed_only_inside accepted _ "db").1 _).mpr
    ⟨[(Addr.v4 0x0a010203#32).mapped], ⟨by decide, fun _ => ⟨_, rfl, rfl⟩, ?_⟩, by simp, ?_⟩
  · intro lit literal
    cases literal
  · refine ⟨by decide, by decide, ?_⟩
    intro ip mem
    obtain rfl := List.mem_singleton.mp mem
    exact ⟨rfl, rfl, inside, by simp [Inside]⟩

end Kconmon.Checker
