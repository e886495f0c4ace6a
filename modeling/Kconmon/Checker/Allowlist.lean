import Kconmon.Console.ImportRules
import Kconmon.Lib.BitPrefix

/-!
# Which destinations outside the cluster an agent may dial

The operator names the ranges an agent may probe and the ranges it may not. A destination is
decided on the addresses it resolves to and never on its name, and all of them must pass. The
addresses that passed are what the agent dials.

What the text of an address or of a range means is decided by `net/netip` and is a field of `Netip`.
-/
namespace Kconmon.Checker
open Lib
open Console.Import (trimSpace)

/-! ## Addresses and ranges -/

/-- `netip.Addr`; a zone names a local interface, and no zone is `""`. -/
inductive Addr
  | invalid
  | v4 (ip : BitVec 32)
  | v6 (ip : BitVec 128) (zone : String)
  deriving DecidableEq

namespace Addr

def isValid : Addr → Bool
  | invalid => false
  | v4 _ | v6 _ _ => true

def zone : Addr → String
  | v6 _ zone => zone
  | invalid | v4 _ => ""

def is4 : Addr → Bool
  | v4 _ => true
  | invalid | v6 _ _ => false

/-- An IPv6 address in `::ffff:0:0/96`. -/
def is4In6 : Addr → Bool
  | v6 ip _ => ip >>> 32 = 0xffff#128
  | invalid | v4 _ => false

def unmap : Addr → Addr
  | v6 ip zone => if is4In6 (v6 ip zone) then v4 (ip.setWidth 32) else v6 ip zone
  | addr => addr

/-- The IPv6 form of an IPv4 address. -/
def mapped : Addr → Addr
  | v4 ip => v6 (0xffff#96 ++ ip) ""
  | addr => addr

end Addr

/-- A `netip.Prefix` that `netip.ParsePrefix` returned: it is valid and has no zone. -/
inductive Prefix
  | v4 (ip : BitVec 32) (bits : Fin 33)
  | v6 (ip : BitVec 128) (bits : Fin 129)
  deriving DecidableEq

namespace Prefix

def addr : Prefix → Addr
  | v4 ip _ => .v4 ip
  | v6 ip _ => .v6 ip ""

def masked : Prefix → Prefix
  | v4 ip bits => v4 (keepFirst bits ip) bits
  | v6 ip bits => v6 (keepFirst bits ip) bits

/-- Both of one family, and no bit of the range's number differs. -/
def contains : Prefix → Addr → Bool
  | v4 net bits, .v4 ip => (ip ^^^ net) >>> (32 - bits.val) = 0#32
  | v6 net bits, .v6 ip "" => (ip ^^^ net) >>> (128 - bits.val) = 0#128
  | _, _ => false

end Prefix

/-- The readers of `net/netip` and the quotation of `fmt`. -/
structure Netip where
  parseAddr : String → Option Addr
  parsePrefix : String → Except String Prefix
  quote : String → String

/-! ## The allowlist -/

/-- Why a destination is refused. -/
inductive Refusal
  | deniedIPv4
  | deniedIPv6
  | notAllowedIPv4
  | notAllowedIPv6
  | deniedZoneScoped
  | resolutionFailed
  | noAddresses
  | noDestination
  | noAllowlist
  deriving DecidableEq

def Refusal.text : Refusal → String
  | deniedIPv4 => "destination resolved into a denied IPv4 range"
  | deniedIPv6 => "destination resolved into a denied IPv6 range"
  | notAllowedIPv4 => "destination resolved outside the allowed IPv4 ranges"
  | notAllowedIPv6 => "destination resolved outside the allowed IPv6 ranges"
  | deniedZoneScoped => "destination is a zone-scoped address, which is never permitted"
  | resolutionFailed => "destination could not be resolved"
  | noAddresses => "destination resolved to no addresses"
  | noDestination => "destination is empty"
  | noAllowlist => "external destination checks are not configured on this agent"

structure Allowlist where
  allowed : List Prefix
  denied : List Prefix

namespace Netip

variable (lib : Netip)

/-- One entry of a list, with its host bits cleared. -/
def parseEntry (field : String) (i : ℕ) (s : String) : Except String Prefix :=
  match lib.parsePrefix (trimSpace s) with
  | .error err => .error (field ++ "[" ++ toString i ++ "] " ++ lib.quote s ++
      " is not a valid CIDR: " ++ err)
  | .ok p =>
    if p.addr.is4In6 then
      .error (field ++ "[" ++ toString i ++ "] " ++ lib.quote s ++
        " is an IPv4-mapped IPv6 prefix; write IPv4 ranges in dotted form (10.0.0.0/8)")
    else .ok p.masked

/-- The entries from the `i`-th on. -/
def parsePrefixes (field : String) : ℕ → List String → Except String (List Prefix)
  | _, [] => .ok []
  | i, s :: raw => do
    let p ← lib.parseEntry field i s
    let out ← parsePrefixes field (i + 1) raw
    return p :: out

def newAllowlist (allowed denied : List String) : Except String Allowlist := do
  let allowedPrefixes ← lib.parsePrefixes "allowedCidrs" 0 allowed
  let deniedPrefixes ← lib.parsePrefixes "deniedCidrs" 0 denied
  return { allowed := allowedPrefixes, denied := deniedPrefixes }

/-- A host that is itself an address, perhaps in brackets. -/
def parseLiteral (host : String) : Option Addr :=
  lib.parseAddr (match host.toList with
    | '[' :: rest => if rest.getLast? = some ']' then String.ofList rest.dropLast else host
    | _ => host)

end Netip

namespace Allowlist

def allow (a : Allowlist) (addr : Addr) : Bool :=
  if !addr.isValid || addr.zone ≠ "" then false
  else
    let ip := addr.unmap
    if !ip.isValid || ip.zone ≠ "" then false
    else if a.denied.any (·.contains ip) then false
    else a.allowed.any (·.contains ip)

/-- The refusal of one address, if it is refused. -/
def check (a : Allowlist) (addr : Addr) : Option Refusal :=
  if !addr.isValid then some .noDestination
  else if addr.zone ≠ "" then some .deniedZoneScoped
  else if a.allow addr then none
  else
    let ip := addr.unmap
    if a.denied.any (·.contains ip) then some (if ip.is4 then .deniedIPv4 else .deniedIPv6)
    else some (if ip.is4 then .notAllowedIPv4 else .notAllowedIPv6)

/-- The loop over the answers; the first that is refused refuses them all. -/
def approve (a : Allowlist) : List Addr → List Addr → Except Refusal (List Addr)
  | approved, [] => .ok approved
  | approved, addr :: addrs =>
    match a.check addr with
    | some refusal => .error refusal
    | none => a.approve (approved ++ [addr.unmap]) addrs

end Allowlist

/-- The answer for a name; `none` is a failed lookup. -/
abbrev Resolver := String → Option (List Addr)

/-- The addresses to dial for a host. -/
def resolveAllowed (lib : Netip) (a : Option Allowlist) (r : Option Resolver) (host : String) :
    Except Refusal (List Addr) :=
  match a with
  | none => .error .noAllowlist
  | some a =>
    let h := trimSpace host
    if h = "" then .error .noDestination
    else match lib.parseLiteral h with
      | some lit =>
        match a.check lit with
        | some refusal => .error refusal
        | none => .ok [lit.unmap]
      | none =>
        match r with
        | none => .error .noAllowlist
        | some lookup =>
          match lookup h with
          | none => .error .resolutionFailed
          | some addrs => if addrs.isEmpty then .error .noAddresses else a.approve [] addrs

end Kconmon.Checker
