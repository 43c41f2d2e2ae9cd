import DddCqrsEs.Decimal
import DddCqrsEs.FullstackApp.Base
import DddCqrsEs.InternetAddress
import DddCqrsEs.UrlHosts
import DddCqrsEs.Utf8

/- Validation of the hosts that dashboard connectors reach, and how a private address can be
spelled. -/
namespace DddCqrsEs.FullstackApp

open InternetAddress

section Guard

/-- `u32::from_str_radix`: a plus sign may stand before the digits. -/
def u32FromStrRadix (text : Text) (radix : Nat) : Option Nat :=
  (Radix.number radix (Decimal.withoutPlus text)).filter (· < 2 ^ 32)

def startsHex (host : Text) : Bool := "0x".toList.isPrefixOf host || "0X".toList.isPrefixOf host

/-- Normalize decimal/hex IPv4 literals (e.g. `2130706433` → 127.0.0.1) for SSRF checks. -/
def normalizeIpLiteral (host : Text) : Option Address :=
  let host := Cuts.trim isWhitespace host
  match parse host with
  | some ip => some ip
  | none =>
    match if startsHex host then u32FromStrRadix (host.drop 2) 16 else none with
    | some n => some (.v4 n)
    | none =>
      if host.all Char.isDigit ∧ host ≠ [] then (u32FromStrRadix host 10).map .v4 else none

/-- `is_private`, `is_loopback`, `is_link_local`, `is_unspecified` and `is_broadcast` for IPv4;
`is_loopback`, `is_unique_local`, `is_unspecified` and `is_multicast` for IPv6. -/
def isBlockedIp : Address → Bool
  | .v4 number =>
    (number / 2 ^ 24 == 10 || number / 2 ^ 20 == 172 * 16 + 1 ||
        number / 2 ^ 16 == 192 * 256 + 168) ||
      number / 2 ^ 24 == 127 || number / 2 ^ 16 == 169 * 256 + 254 || number == 0 ||
      number == 2 ^ 32 - 1 || (number / 2 ^ 24 == 169 && number / 2 ^ 16 % 256 == 254)
  | .v6 groups =>
    groups == [0, 0, 0, 0, 0, 0, 0, 1] || groups.head?.any (· / 2 ^ 9 == 126) ||
      groups == [0, 0, 0, 0, 0, 0, 0, 0] || groups.head?.any (· / 2 ^ 8 == 255)

def isBracket (c : Char) : Bool := c == '[' || c == ']'

/-- A check that a private target fails, unless these are allowed. -/
def unlessAllowed (allowPrivate : Bool) (message : String) : Except AuthStackError Unit :=
  if allowPrivate then .ok () else .error (.validation message)

def privateSuffixes : List String := [".internal", ".local", ".home.arpa"]

def validateHost (host : Text) (allowPrivate : Bool) : Except AuthStackError Unit :=
  let host := Cuts.trim isBracket (Cuts.trim isWhitespace host)
  if host = [] then .error (.validation "host is missing")
  else if '/' ∈ host ∨ '\\' ∈ host then .error (.validation "host is invalid")
  else
    let lower := host.map asciiLower
    if lower = "localhost".toList ∨ ".localhost".toList <:+ lower then
      unlessAllowed allowPrivate
        "localhost targets are blocked (set AUTH_DASHBOARD_HTTP_ALLOW_PRIVATE=true to allow)"
    else if privateSuffixes.any (fun suffix => decide (suffix.toList <:+ lower)) then
      unlessAllowed allowPrivate
        ("private suffix host `" ++ String.ofList host ++ "` is blocked")
    else if lower = "metadata.google.internal".toList ∨
        ".metadata.google.internal".toList <:+ lower then
      unlessAllowed allowPrivate "cloud metadata hosts are blocked"
    else
      match normalizeIpLiteral host with
      | some ip =>
        if isBlockedIp ip then
          unlessAllowed allowPrivate "private or link-local IP targets are blocked"
        else .ok ()
      | none =>
        match parse host with
        | some ip =>
          if isBlockedIp ip then
            unlessAllowed allowPrivate "private or link-local IP targets are blocked"
          else .ok ()
        | none => .ok ()

/-- The addresses that a name is resolved to, on a target with DNS. -/
abbrev Dns := Option (Text → Option (List Address))

def resolveHostIfAvailable (dns : Dns) (host : Text) (allowPrivate : Bool) :
    Except AuthStackError Unit :=
  match dns with
  | none => .ok ()
  | some lookup =>
    if (parse host).isSome then .ok ()
    else
      match lookup host with
      | none => .ok ()
      | some resolved =>
        if resolved.any isBlockedIp then
          unlessAllowed allowPrivate
            ("host `" ++ String.ofList host ++ "` resolves to a blocked address")
        else .ok ()

def validatePostgresHost (dns : Dns) (host : Text) (allowPrivate : Bool) :
    Except AuthStackError Unit :=
  let host := Cuts.trim isWhitespace host
  if host = [] then .error (.validation "postgres host is required")
  else if 253 < Utf8.size host then .error (.validation "postgres host is too long")
  else
    match validateHost host allowPrivate with
    | .error error => .error error
    | .ok () => resolveHostIfAvailable dns host allowPrivate

def validateGrpcHost (dns : Dns) (host : Text) (allowPrivate : Bool) :
    Except AuthStackError Unit :=
  let host := Cuts.trim isWhitespace host
  if host = [] then .error (.validation "grpc host is required")
  else
    match validateHost host allowPrivate with
    | .error error => .error error
    | .ok () => resolveHostIfAvailable dns host allowPrivate

end Guard

/-- `localhost`, or a name under it, in any case. -/
def LocalName (name : Text) : Prop :=
  name.map asciiLower = "localhost".toList ∨ ".localhost".toList <:+ name.map asciiLower

instance (name : Text) : Decidable (LocalName name) := inferInstanceAs (Decidable (_ ∨ _))

/-- A host that denotes a loopback, private, link-local or unspecified address: an IPv4 address
in a form that `inet_aton` reads, an IPv6 text with or without brackets, or a local name with or
without a dot behind it. -/
inductive PrivateSpelling
  | ipv4 (text : Text) (number : Nat) (read : inetAton text = some number)
      (isPrivate : Private4 number)
  | ipv6 (brackets : Bool) (text : Text) (groups : List Nat) (read : ipv6 text = some groups)
      (isPrivate : Private6 groups)
  | name (dot : Bool) (text : Text) (valid : isHostName text = true) (isLocal : LocalName text)

namespace PrivateSpelling

def text : PrivateSpelling → Text
  | ipv4 text _ _ _ => text
  | ipv6 brackets text _ _ _ => if brackets then '[' :: (text ++ [']']) else text
  | name dot text _ _ => if dot then text ++ ['.'] else text

/-- The spellings that the guard knows: one hexadecimal number, one run of digits that is a
blocked address when it is read in decimal, four plain decimal parts, an IPv6 address that is
neither link-local nor a mapped IPv4 address, and a name without a dot behind it. -/
def Recognized : PrivateSpelling → Prop
  | ipv4 text _ _ _ =>
    match text.splitOn '.' with
    | [number] => startsHex number = true ∨
        ∃ n, Radix.number 10 number = some n ∧ n < 2 ^ 32 ∧ isBlockedIp (.v4 n) = true
    | [a, b, c, d] => Plain a ∧ Plain b ∧ Plain c ∧ Plain d
    | _ => False
  | ipv6 _ _ groups _ _ => ¬ LinkLocal6 groups ∧ ∀ number, ¬ Mapped6 number groups
  | name dot _ _ _ => dot = false

end PrivateSpelling

/-- The guard refuses a host, and so do the connectors' guards on a target without DNS. -/
def Refused (host : Text) : Prop :=
  (validateHost host false).isOk = false ∧
    (validatePostgresHost none host false).isOk = false ∧
    (validateGrpcHost none host false).isOk = false

end DddCqrsEs.FullstackApp
