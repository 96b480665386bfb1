/-
# URLs that may be fetched

Only public HTTP and HTTPS hosts are: a literal private, loopback or link-local
address and `localhost` are refused before any request. Parsing and joining URLs is
the library's part.
-/

import Harmony.Library.Chars

namespace Harmony.External

inductive Host
  | domain (name : String)
  | ipv4 (a b c d : UInt8)
  | ipv6 (segments : Vector UInt16 8)
  deriving DecidableEq

/-- A parsed URL, with the text it serializes to. -/
structure Url where
  scheme : String
  host : Option Host
  path : String
  queryPairs : List (String × String)
  text : String
  deriving DecidableEq

inductive ParseError
  | relativeUrlWithoutBase
  | other (message : String)

def ParseError.message : ParseError → String
  | relativeUrlWithoutBase => "relative URL without a base"
  | other message => message

/-- The URL library. -/
structure UrlLibrary where
  parse : String → Except ParseError Url
  join : Url → String → Except ParseError Url

/-! ### Blocked addresses -/

def isBlockedV4 (a b c d : UInt8) : Bool :=
  -- Loopback, the three private ranges, link-local.
  a == 127 || (a == 10 || (a == 172 && 16 ≤ b && b ≤ 31) || (a == 192 && b == 168)) ||
    (a == 169 && b == 254) || (a == 224 && b == 0 && c == 0) ||
    (a == 0 && b == 0 && c == 0 && d == 0)

/-- The IPv4 address in the last two segments of a mapped address. -/
def toIpv4Mapped (segments : Vector UInt16 8) : Option (UInt8 × UInt8 × UInt8 × UInt8) :=
  if (segments.toList.take 5).all (· == 0) && segments[5] == 0xFFFF then
    some ((segments[6] >>> 8).toUInt8, segments[6].toUInt8, (segments[7] >>> 8).toUInt8,
      segments[7].toUInt8)
  else none

def isBlockedV6 (segments : Vector UInt16 8) : Bool :=
  let first := segments[0]
  let leadingZeros := (segments.toList.take 7).all (· == 0)
  (leadingZeros && segments[7] == 1) || (first &&& 0xFE00) == 0xFC00 ||
    (first &&& 0xFFC0) == 0xFE80 || (first &&& 0xFF0F) == 0xFF02 ||
    (leadingZeros && segments[7] == 0)

def isBlockedIp : Host → Bool
  | .domain _ => false
  | .ipv4 a b c d => isBlockedV4 a b c d
  | .ipv6 segments =>
    match toIpv4Mapped segments with
    | some (a, b, c, d) => isBlockedV4 a b c d
    | none => isBlockedV6 segments

/-! ### The check -/

def unsafeText : String := "unsafe stream URL"

/-- The name without the dots at its end, in lower case. -/
def plainDomain (name : String) : String :=
  String.ofList ((name.toList.reverse.dropWhile (· == '.')).reverse.map Char.toLower)

/-- What is asked of a parsed URL. -/
def checkUrl (url : Url) : Except String Unit :=
  if url.scheme ≠ "http" ∧ url.scheme ≠ "https" then .error s!"{unsafeText}: unsupported scheme"
  else
    match url.host with
    | none => .error s!"{unsafeText}: blocked host"
    | some (.domain name) =>
      let domain := plainDomain name
      if domain = "" ∨ domain = "localhost" then .error s!"{unsafeText}: blocked host" else .ok ()
    | some address =>
      if isBlockedIp address then .error s!"{unsafeText}: blocked IP" else .ok ()

section Check

variable (urls : UrlLibrary)

/-- Refuses anything but public HTTP(S) hosts. -/
def validateStreamUrl (raw : String) : Except String Unit :=
  match urls.parse raw with
  | .error .relativeUrlWithoutBase => .error s!"{unsafeText}: unsupported scheme"
  | .error error => .error error.message
  | .ok url => checkUrl url

def isWebUrl (value : String) : Bool :=
  match urls.parse value with
  | .ok url => decide (url.scheme = "http" ∨ url.scheme = "https")
  | .error _ => false

/-- Artwork is fetched only from public HTTPS addresses. -/
def isArtworkUrl (value : String) : Bool :=
  (match urls.parse value with
    | .ok url => decide (url.scheme = "https")
    | .error _ => false) && (validateStreamUrl urls value).isOk

variable {urls}

/-- A validated URL is one of the web. -/
theorem isWebUrl_of_valid {raw : String} (h : (validateStreamUrl urls raw).isOk = true) :
    isWebUrl urls raw = true := by
  rw [validateStreamUrl] at h
  rw [isWebUrl]
  cases hparse : urls.parse raw with
  | error error => cases error <;> simp [hparse, Except.isOk, Except.toBool] at h
  | ok url =>
    simp only [hparse, checkUrl] at h
    simp only [decide_eq_true_eq]
    by_contra hscheme
    rw [not_or] at hscheme
    simp [hscheme, Except.isOk, Except.toBool] at h

theorem valid_of_isArtworkUrl {raw : String} (h : isArtworkUrl urls raw = true) :
    (validateStreamUrl urls raw).isOk = true := by
  rw [isArtworkUrl, Bool.and_eq_true] at h
  exact h.2

end Check

end Harmony.External
