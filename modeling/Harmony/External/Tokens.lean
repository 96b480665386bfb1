/-
# Signed tokens

An External Track id is what the search found, signed with a key of this process; a
resource token is a URL of a playlist, signed for one Track and one hour. A text is
accepted only when its tag is the one that the key gives its payload, and it is then
the text that was signed.
-/

import Harmony.External.Url
import Harmony.Library.Base64

namespace Harmony.External

/-- A serialization that reads back what it wrote. -/
structure PayloadFormat (α : Type) where
  write : α → List UInt8
  read : List UInt8 → Option α
  read_write : ∀ value, read (write value) = some value

/-- What an External Track id stands for: the page, the extractor that yt-dlp is
pinned to, and the cover that the search chose. -/
structure TrackRef where
  url : String
  extractor : String
  artworkUrl : Option String

def TrackRef.new (url extractor : String) : TrackRef := ⟨url, extractor, none⟩

structure ResourceClaims where
  s : String
  u : String
  e : ℤ

/-! ### Tags -/

section Tags

variable (mac : List Char → List UInt8)

/-- The payload and its tag. -/
def signedText (payload : List Char) : String :=
  String.ofList (payload ++ ['.'] ++ Base64.encode (mac payload))

/-- The payload of a text whose tag is right. -/
def openText (text : String) : Option (List Char) :=
  match Chars.splitOnce ['.'] text.toList with
  | none => none
  | some (payload, signature) =>
    match Base64.decode signature with
    | none => none
    | some tag => if tag = mac payload then some payload else none

variable {mac}

theorem dot_notMem_encode (bytes : List UInt8) : '.' ∉ Base64.encode bytes := by
  intro hmem
  have hsymbol := Base64.isSymbol_of_mem_encode '.' hmem
  cases hsymbol

theorem openText_signedText (bytes : List UInt8) :
    openText mac (signedText mac (Base64.encode bytes)) = some (Base64.encode bytes) := by
  have hsplit : Chars.splitOnce ['.'] (signedText mac (Base64.encode bytes)).toList =
      some (Base64.encode bytes, Base64.encode (mac (Base64.encode bytes))) := by
    rw [signedText, String.toList_ofList, List.append_assoc]
    exact Chars.splitOnce_append (dot_notMem_encode bytes)
  rw [openText, hsplit]
  dsimp only
  rw [Base64.decode_encode]
  exact if_pos rfl

/-- A text whose tag is right is the one that was signed. -/
theorem eq_signedText {text : String} {payload : List Char}
    (h : openText mac text = some payload) : text = signedText mac payload := by
  rw [openText] at h
  cases hsplit : Chars.splitOnce ['.'] text.toList with
  | none => simp [hsplit] at h
  | some parts =>
    obtain ⟨first, signature⟩ := parts
    simp only [hsplit] at h
    cases hdecode : Base64.decode signature with
    | none => simp [hdecode] at h
    | some tag =>
      simp only [hdecode] at h
      split_ifs at h with htag
      cases h
      rw [signedText, ← htag, Base64.encode_of_decode hdecode, ← Chars.eq_of_splitOnce hsplit,
        String.ofList_toList]

/-- That a text with a right tag carries one of the payloads. -/
def Genuine (mac : List Char → List UInt8) (payloads : List (List Char)) (text : String) : Bool :=
  match openText mac text with
  | none => true
  | some payload => decide (payload ∈ payloads)

theorem mem_of_genuine {payloads : List (List Char)} {text : String} {payload : List Char}
    (h : Genuine mac payloads text = true) (hopen : openText mac text = some payload) :
    payload ∈ payloads := by
  rw [Genuine, hopen] at h
  exact of_decide_eq_true h

theorem Genuine.mono {payloads payloads' : List (List Char)} {text : String}
    (h : Genuine mac payloads text = true) (hsubset : payloads ⊆ payloads') :
    Genuine mac payloads' text = true := by
  rw [Genuine] at h ⊢
  cases hopen : openText mac text with
  | none => rfl
  | some payload =>
    simp only [hopen, decide_eq_true_eq] at h ⊢
    exact hsubset h

end Tags

/-! ### External Track ids -/

/-- Longer ids are not issued, so a longer one is refused unread. -/
def maxIdLength : ℕ := 2048

def invalidId : String := "invalid External Track id"

/-- yt-dlp extractor keys are identifiers such as `Soundcloud` or `Youtube`. -/
def isExtractorKey (value : String) : Bool :=
  value ≠ "" && value.utf8ByteSize ≤ 64 && value.toList.all fun c => c.isAlphanum || c == '_'

/-- The characters of an id. -/
def isIdCharacter (c : Char) : Bool := c.isAlphanum || c == '-' || c == '_' || c == '.'

structure TokenSigner where
  mac : List Char → List UInt8

namespace TokenSigner

variable (signer : TokenSigner) (format : PayloadFormat TrackRef) (urls : UrlLibrary)

def payload (track : TrackRef) : List Char := Base64.encode (format.write track)

/-- `none` when the id would be too long. -/
def sign (track : TrackRef) : Option String :=
  let id := signedText signer.mac (payload format track)
  if id.utf8ByteSize ≤ maxIdLength then some id else none

/-- What is checked of a payload that this process signed. -/
def isWellFormed (track : TrackRef) : Bool :=
  isExtractorKey track.extractor && isWebUrl urls track.url &&
    track.artworkUrl.all (isArtworkUrl urls)

def verify (id : String) : Except String TrackRef :=
  if maxIdLength < id.utf8ByteSize ∨ id.toList.all isIdCharacter = false then .error invalidId
  else
    match openText signer.mac id with
    | none => .error invalidId
    | some text =>
      match (Base64.decode text).bind format.read with
      | none => .error invalidId
      | some track => if isWellFormed urls track then .ok track else .error invalidId

variable {signer format urls}

theorem verify_ok {id : String} {track : TrackRef} (h : signer.verify format urls id = .ok track) :
    ∃ text, openText signer.mac id = some text ∧
      (Base64.decode text).bind format.read = some track ∧ isWellFormed urls track = true := by
  rw [verify] at h
  split_ifs at h with hlength
  cases hopen : openText signer.mac id with
  | none => simp [hopen] at h
  | some text =>
    simp only [hopen] at h
    cases hread : (Base64.decode text).bind format.read with
    | none => simp [hread] at h
    | some found =>
      simp only [hread] at h
      split_ifs at h with hform
      cases h
      exact ⟨text, rfl, hread, hform⟩

theorem isIdCharacter_of_isSymbol {c : Char} (h : Base64.isSymbol c = true) :
    isIdCharacter c = true := by
  rw [Base64.isSymbol, Option.isSome_iff_exists] at h
  obtain ⟨n, hn⟩ := h
  obtain ⟨rfl, hlt⟩ := Base64.symbol_value hn
  clear hn
  interval_cases n <;> decide

theorem isIdCharacter_of_mem_signedText (track : TrackRef) :
    (signedText signer.mac (payload format track)).toList.all isIdCharacter = true := by
  rw [signedText, String.toList_ofList, List.all_eq_true]
  intro c hc
  rw [List.mem_append, List.mem_append, List.mem_singleton] at hc
  rcases hc with (hc | rfl) | hc
  · exact isIdCharacter_of_isSymbol (Base64.isSymbol_of_mem_encode c hc)
  · rfl
  · exact isIdCharacter_of_isSymbol (Base64.isSymbol_of_mem_encode c hc)

/-- An id that was issued is accepted, and stands for what was signed. -/
theorem verify_sign {track : TrackRef} {id : String} (hsign : signer.sign format track = some id)
    (hform : isWellFormed urls track = true) : signer.verify format urls id = .ok track := by
  rw [sign] at hsign
  split_ifs at hsign with hlength
  cases hsign
  have hcharacters :
      (signedText signer.mac (payload format track)).toList.all isIdCharacter = true :=
    isIdCharacter_of_mem_signedText track
  rw [verify, if_neg (by rw [hcharacters]; simpa using hlength), payload, openText_signedText]
  simp only [Base64.decode_encode, Option.bind_some, format.read_write]
  exact if_pos hform

/-- An id that is accepted, with a payload of this process, was signed for what it
stands for. -/
theorem eq_of_verify {id : String} {track signed : TrackRef}
    (h : signer.verify format urls id = .ok track)
    (hopen : openText signer.mac id = some (payload format signed)) :
    track = signed ∧ id = signedText signer.mac (payload format signed) := by
  obtain ⟨text, htext, hread, -⟩ := verify_ok h
  rw [hopen] at htext
  cases htext
  rw [payload, Base64.decode_encode, Option.bind_some, format.read_write] at hread
  exact ⟨(Option.some.inj hread).symm, eq_signedText hopen⟩

end TokenSigner

/-! ### Fingerprints -/

def hexByte (b : UInt8) : List Char := [Nat.digitChar (b.toNat / 16), Nat.digitChar (b.toNat % 16)]

/-- A short, stable stand-in for an id: what resource tokens are bound to. -/
def fingerprint (sha256 : List UInt8 → List UInt8) (id : String) : String :=
  String.ofList (((sha256 id.toUTF8.data.toList).take 8).flatMap hexByte)

/-! ### Resource tokens -/

def hlsResourceTokenTtlSeconds : ℤ := 3600

def invalidResourceToken : String := "invalid HLS resource token"

/-- Tokens for HLS resources, bound to one station and an hour. -/
structure ResourceSigner where
  mac : List Char → List UInt8

namespace ResourceSigner

variable (signer : ResourceSigner) (format : PayloadFormat ResourceClaims) (urls : UrlLibrary)

def payload (claims : ResourceClaims) : List Char := Base64.encode (format.write claims)

def sign (now : ℤ) (stationId resourceUrl : String) : String :=
  signedText signer.mac (payload format ⟨stationId, resourceUrl, now + hlsResourceTokenTtlSeconds⟩)

def verify (now : ℤ) (token stationId : String) : Except String String :=
  match openText signer.mac token with
  | none => .error invalidResourceToken
  | some text =>
    match (Base64.decode text).bind format.read with
    | none => .error invalidResourceToken
    | some claims =>
      if claims.s ≠ stationId ∨ claims.e ≤ now then .error invalidResourceToken
      else
        match validateStreamUrl urls claims.u with
        | .error error => .error s!"{invalidResourceToken}: {error}"
        | .ok () => .ok claims.u

variable {signer format urls}

/-- A token that is accepted, with claims of this process, is for the station and its
hour is not over. -/
theorem verify_ok {now : ℤ} {token stationId url : String} {claims : ResourceClaims}
    (h : signer.verify format urls now token stationId = .ok url)
    (hopen : openText signer.mac token = some (payload format claims)) :
    claims.s = stationId ∧ now < claims.e ∧ claims.u = url := by
  rw [verify, hopen] at h
  dsimp only at h
  rw [payload, Base64.decode_encode, Option.bind_some, format.read_write] at h
  dsimp only at h
  split_ifs at h with hrefused
  rw [not_or, not_not, not_le] at hrefused
  cases hvalid : validateStreamUrl urls claims.u with
  | error error => simp [hvalid] at h
  | ok _ =>
    simp only [hvalid, Except.ok.injEq] at h
    exact ⟨hrefused.1, hrefused.2, h⟩

theorem openText_of_verify {now : ℤ} {token stationId url : String}
    (h : signer.verify format urls now token stationId = .ok url) :
    ∃ text, openText signer.mac token = some text := by
  cases hopen : openText signer.mac token with
  | none => simp [verify, hopen] at h
  | some text => exact ⟨text, rfl⟩

end ResourceSigner

end Harmony.External
