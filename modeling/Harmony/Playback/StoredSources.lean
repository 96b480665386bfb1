/-
# Stored sources are read

Every source in the queue tables was written by the server, so that no read of a queue
fails at one: not when it is read, and not when it is written for the client.
-/

import Mathlib.Algebra.GroupWithZero.Nat
import Harmony.Playback.Listing
import Harmony.Playback.SourceTexts

namespace Harmony.Playback

open CommaList Transaction
open Search.Json (Literal escape quoted)

variable {serde : Serde} {source : QueueItemSource} {text : List Char}

/-! ### Encoding -/

theorem encode_of_accepted (h : serde.Documented) (hs : Accepted source) :
    encode serde source =
      if (Utf8.encode (sourceText serde source)).length ≤ maxSourceBytes then
        .ok (sourceText serde source)
      else .error s!"{invalid}: source exceeds {maxSourceBytes} bytes" := by
  rw [encode, parseJson_sourceText h hs]
  by_cases hlength : (Utf8.encode (sourceText serde source)).length ≤ maxSourceBytes
  · rw [if_pos hlength, if_pos hlength]
    rfl
  · rw [if_neg hlength, if_neg hlength]
    rfl

theorem accepted_of_parse (h : serde.Documented) {raw : Option (List Char)}
    (hparse : parse serde raw = .ok source) : Accepted source := by
  cases raw with
  | none =>
    cases hparse
    exact .user
  | some raw => exact accepted_of_parseJson h hparse

/-- A stored text that is read, as a source that is written again. -/
def Readable (serde : Serde) (text : String) : Prop :=
  ∃ source, parseJson serde text.toList = .ok source ∧ ∃ data, encode serde source = .ok data

theorem readable_encode (h : serde.Documented) (hs : Accepted source) {stored : List Char}
    (hstored : encode serde source = .ok stored) :
    parseJson serde stored = .ok source := by
  rw [encode_of_accepted h hs] at hstored
  split_ifs at hstored with hlength
  cases hstored
  rw [parseJson_sourceText h hs, if_pos hlength]

/-! ### The queue tables -/

/-- Every row has such a source. -/
def HasSources (P : String → Prop) (queue : QueueTable) : Prop :=
  ∀ id row, queue.rows.lookup id = some row → P row.source

/-- The sources stay such. -/
def KeepsSources (P : String → Prop) (s t : Store) : Prop :=
  HasSources P s.queue → HasSources P t.queue

section Tables

variable {P : String → Prop}

instance : IsPreorder Store (KeepsSources P) where
  refl _ := id
  trans _ _ _ hfirst hsecond := fun h => hsecond (hfirst h)

theorem HasSources.deleteWhere {queue : QueueTable} (h : HasSources P queue)
    (p : String → QueueRow → Bool) : HasSources P (queue.deleteWhere p) :=
  fun id row hrow => h id row (UniqueTable.lookup_deleteWhere.mp hrow).1

theorem HasSources.insert {queue queue' : QueueTable} (h : HasSources P queue) {id : String}
    {row : QueueRow} (hrow : P row.source) (hinsert : queue.insert id row = .ok queue') :
    HasSources P queue' := by
  obtain ⟨-, -, hrows⟩ := UniqueTable.insert_eq_ok.mp hinsert
  intro id' row' hrow'
  rw [hrows, Table.lookup_insert_eq] at hrow'
  split_ifs at hrow' with hid
  · rwa [← Option.some.inj hrow']
  · exact h id' row' hrow'

/-- A row that only moves keeps its source. -/
theorem HasSources.put {queue queue' : QueueTable} (h : HasSources P queue) {id : String}
    {row : QueueRow} (hrow : P row.source) (hput : queue.put id row = .ok queue') :
    HasSources P queue' := by
  obtain ⟨-, hrows⟩ := UniqueTable.put_eq_ok.mp hput
  intro id' row' hrow'
  rw [hrows, Table.lookup_modify] at hrow'
  split_ifs at hrow' with hid
  · obtain ⟨old, -, rfl⟩ := Option.map_eq_some_iff.mp hrow'
    exact hrow
  · exact h id' row' hrow'

theorem moves_writeQueue {result : QueueTable → Except UniqueViolation QueueTable}
    (h : ∀ queue queue', HasSources P queue → result queue = .ok queue' → HasSources P queue') :
    Moves (KeepsSources P) (writeQueue result) := by
  intro s a t hrun hs
  cases hresult : result s.queue with
  | ok queue =>
    rw [writeQueue_ok hresult] at hrun
    cases hrun
    exact h s.queue queue hs hresult
  | error violation =>
    rw [writeQueue, run_bind_ok] at hrun
    obtain ⟨_, _, hget, hrun⟩ := hrun
    obtain ⟨rfl, rfl⟩ := run_get_ok.mp hget
    rw [hresult] at hrun
    exact absurd hrun run_throw_ok

theorem moves_insertItem {id userId trackId source : String} {position : ℤ} (h : P source) :
    Moves (KeepsSources P) (insertItem id userId position trackId source) :=
  .bind (moves_writeQueue fun _ _ hqueue hinsert => hqueue.insert h hinsert) fun _ =>
    .bind .get fun _ => .require _ _

theorem moves_updatePosition {userId itemId : String} {position : ℤ → ℤ} :
    Moves (KeepsSources P) (updatePosition userId itemId position) := by
  refine moves_writeQueue fun queue queue' hqueue hresult => ?_
  split at hresult
  · rename_i row hrow
    split_ifs at hresult with huser
    · have hmoved : P ({ row with position := position row.position } : QueueRow).source :=
        hqueue itemId row hrow
      exact hqueue.put hmoved hresult
    · rwa [← Except.ok.inj hresult]
  · rwa [← Except.ok.inj hresult]

theorem moves_deleteItem {userId itemId : String} :
    Moves (KeepsSources P) (deleteItem userId itemId) := by
  intro s a t hrun hs
  obtain ⟨_, _, hget, hrun⟩ := run_bind_ok.mp hrun
  obtain ⟨rfl, rfl⟩ := run_get_ok.mp hget
  obtain ⟨⟨⟩, u, hset, hrun⟩ := run_bind_ok.mp hrun
  obtain ⟨-, rfl⟩ := run_pure_ok.mp hrun
  have hu : u = { s with queue := s.queue.deleteWhere (isItemOf userId itemId) } := by
    cases hset
    rfl
  rw [hu]
  exact hs.deleteWhere _

theorem moves_beginMutation {userId expectedRevision : String} :
    Moves (KeepsSources P) (Repository.beginMutation userId expectedRevision) := by
  intro s a t hrun hs
  obtain ⟨_, _, hget, hrun⟩ := run_bind_ok.mp hrun
  obtain ⟨rfl, rfl⟩ := run_get_ok.mp hget
  obtain ⟨_, _, hrequire, hrun⟩ := run_bind_ok.mp hrun
  obtain ⟨-, rfl⟩ := run_require_ok.mp hrequire
  cases hrun
  exact hs

theorem moves_clear {userId : String} : Moves (KeepsSources P) (clear userId) :=
  .modify fun _ hs => hs.deleteWhere _

theorem moves_setPositions {userId : String} {itemIds : List String} :
    Moves (KeepsSources P) (setPositions userId itemIds) :=
  .forEach (fun _ => moves_updatePosition) _

/-- The source that a mutation gives its items, where it gives them one. -/
def Mutation.Gives (P : String → Prop) : Mutation → Prop
  | replace _ source | append _ source => P source
  | remove _ | clear _ | reorder _ => True

/-- A mutation inserts items with its own source, moves items or deletes them. -/
theorem moves_run {m : Mutation} (h : m.Gives P) (uuids : ℕ → String)
    (userId expectedRevision : String) :
    Moves (KeepsSources P) (m.run uuids userId expectedRevision) := by
  cases m with
  | replace trackIds source =>
    exact .bind moves_beginMutation fun _ => .bind moves_clear fun _ =>
      .forEach (fun _ => moves_insertItem h) _
  | append trackId source =>
    exact .bind moves_beginMutation fun _ => .bind .get fun _ => .bind (.require _ _) fun _ =>
      moves_insertItem h
  | remove itemId =>
    exact .bind moves_beginMutation fun _ => .bind moves_deleteItem fun _ =>
      .bind (.require _ _) fun _ => .bind (.bind .get fun _ => .pure _) fun _ => moves_setPositions
  | clear afterItemId =>
    refine .bind moves_beginMutation fun _ => .ite moves_clear ?_
    exact .bind (.bind .get fun _ => .pure _) fun _ => .bind (.fromOption _ _) fun _ =>
      .forEach (fun _ => .bind moves_deleteItem fun _ => .pure _) _
  | reorder itemIds =>
    exact .bind moves_beginMutation fun _ => .bind (.bind .get fun _ => .pure _) fun _ =>
      .bind (.require _ _) fun _ =>
        .bind (.bind .get fun _ => .forEach (fun _ => moves_updatePosition) _) fun _ =>
          moves_setPositions

/-- The source of each mutation is such. -/
def Event.Gives (P : String → Prop) : Event → Prop
  | mutate _ _ _ m => m.Gives P
  | finalizeTrackDeletion _ | changeTracks _ => True

theorem Event.perform_sources {e : Event} (h : e.Gives P) {s t : Store}
    (hs : HasSources P s.queue) (hstep : e.perform s = .ok t) : HasSources P t.queue := by
  cases e with
  | mutate userId expectedRevision uuids m =>
    obtain ⟨⟨⟩, hrun⟩ := outcome_eq_ok.mp hstep
    exact moves_run h uuids userId expectedRevision s _ t hrun hs
  | finalizeTrackDeletion trackId =>
    obtain ⟨⟨⟩, hrun⟩ := outcome_eq_ok.mp hstep
    simp only [Playback.finalizeTrackDeletion, run_bind_ok, run_get_ok, run_modify_ok] at hrun
    obtain ⟨_, _, ⟨rfl, rfl⟩, _, u, hadvance, rfl⟩ := hrun
    have hqueue : u.queue = s.queue := advanceQueues_keepsQueue _ s _ u hadvance
    exact (hqueue ▸ hs).deleteWhere _
  | changeTracks tracks =>
    cases hstep
    exact hs.deleteWhere _

end Tables

/-! ### Reads -/

/-- Where every source is read and written again, so is the queue. -/
theorem getQueue_readable {s : Store} (hs : HasSources (Readable serde) s.queue) (userId : String) :
    ∃ queue, getQueue (fun text => parseJson serde text.toList) s userId = .ok queue ∧
      ∀ item ∈ queue.items, ∃ data, encode serde item.source = .ok data := by
  have hrow : ∀ row ∈ s.queue.items userId, Readable serde row.source :=
    fun row hrow => hs _ _ ((lists_items row).mp hrow)
  refine ⟨_, getQueue_eq_ok.mpr ⟨fun row hmem => ?_, rfl⟩, fun item hitem => ?_⟩
  · obtain ⟨source, hsource, -⟩ := hrow row hmem
    rw [hsource]
    rfl
  · obtain ⟨row, hmem, hresolved⟩ := List.mem_filterMap.mp hitem
    obtain ⟨source, hsource, hdata⟩ := hrow row hmem
    rw [resolved, hsource] at hresolved
    split at hresolved
    · rename_i heq _
      cases heq
      cases hresolved
      exact hdata
    · cases hresolved

/-- A text that the server stores for a source that a request gives. -/
def Encoded (serde : Serde) (text : String) : Prop :=
  ∃ raw source stored, parse serde raw = .ok source ∧ encode serde source = .ok stored ∧
    text = String.ofList stored

theorem Encoded.readable (h : serde.Documented) {text : String} (htext : Encoded serde text) :
    Readable serde text := by
  obtain ⟨raw, source, stored, hparse, hstored, rfl⟩ := htext
  refine ⟨source, ?_, stored, hstored⟩
  rw [String.toList_ofList]
  exact readable_encode h (accepted_of_parse h hparse) hstored

/-- A source that is read from a request is encoded exactly when its text is not too long,
and then its text is read as the same source. Whatever is done to the queues with the
encoded sources of requests, a queue is read and written for its client. -/
theorem sources_round_trip (h : serde.Documented) :
    (∀ raw source, parse serde raw = .ok source →
      ((∃ stored, encode serde source = .ok stored) ↔
        (Utf8.encode (sourceText serde source)).length ≤ maxSourceBytes) ∧
      ∀ stored, encode serde source = .ok stored → parseJson serde stored = .ok source) ∧
    ∀ start events s, HasSources (Readable serde) start.queue →
      (∀ e ∈ events, e.Gives (Encoded serde)) →
      Transition.Run (fun s (e : Event) t => e.perform s = .ok t) start events s → ∀ userId,
        ∃ queue, getQueue (fun text => parseJson serde text.toList) s userId = .ok queue ∧
          ∀ item ∈ queue.items, ∃ data, encode serde item.source = .ok data := by
  constructor
  · intro raw source hparse
    have hs := accepted_of_parse h hparse
    refine ⟨?_, fun stored => readable_encode h hs⟩
    rw [encode_of_accepted h hs]
    split_ifs with hlength
    · exact iff_of_true ⟨_, rfl⟩ hlength
    · exact iff_of_false (fun ⟨_, hstored⟩ => by cases hstored) hlength
  · intro start events s hstart hevents hrun userId
    have hgives : ∀ e : Event, e.Gives (Encoded serde) → e.Gives (Readable serde) := by
      intro e he
      cases e with
      | mutate user expectedRevision uuids m =>
        cases m with
        | replace trackIds source => exact Encoded.readable h he
        | append trackId source => exact Encoded.readable h he
        | remove itemId => trivial
        | clear afterItemId => trivial
        | reorder itemIds => trivial
      | finalizeTrackDeletion trackId => trivial
      | changeTracks tracks => trivial
    have hs : HasSources (Readable serde) s.queue :=
      @Transition.Run.preserves Store Event _ events
        (fun s => HasSources (Readable serde) s.queue) (Event.Gives (Encoded serde))
        (fun _ e _ he hs hstep => e.perform_sources (hgives e he) hs hstep) start s hrun
        hevents hstart
    exact getQueue_readable hs userId

/-! ### A library that does what is documented -/

/-- What stands up to the closing quote, and what follows it. -/
def takeBody : List Char → Option (List Char × List Char)
  | [] => none
  | '"' :: rest => some ([], rest)
  | '\\' :: c :: rest => (takeBody rest).map fun parts => ('\\' :: c :: parts.1, parts.2)
  | c :: rest => (takeBody rest).map fun parts => (c :: parts.1, parts.2)

theorem takeBody_plain {c : Char} (hquote : c ≠ '"') (hbackslash : c ≠ '\\') (rest : List Char) :
    takeBody (c :: rest) = (takeBody rest).map fun parts => (c :: parts.1, parts.2) := by
  rw [takeBody.eq_def]
  split
  · contradiction
  · rename_i heq
    exact absurd (List.cons.inj heq).1 hquote
  · rename_i heq
    exact absurd (List.cons.inj heq).1 hbackslash
  · rename_i heq
    obtain ⟨rfl, rfl⟩ := List.cons.inj heq
    rfl

/-- The end of a string is found by induction on how it is spelled. -/
theorem takeBody_literal {body value : List Char} (h : Literal body value) (rest : List Char) :
    takeBody (body ++ '"' :: rest) = some (body, rest) := by
  induction h with
  | nil => rfl
  | plain c hquote hbackslash _ _ ih =>
    rw [List.cons_append, takeBody_plain hquote hbackslash, ih]
    rfl
  | short escape c h _ ih =>
    rw [List.cons_append, List.cons_append, takeBody, ih]
    rfl
  | unicode first second third fourth c h _ ih =>
    have hdigit : ∀ {d : Char}, d = '"' ∨ d = '\\' → Search.Json.hexDigit d = none := by
      rintro d (rfl | rfl) <;> decide
    have hplain : ∀ d ∈ [first, second, third, fourth], d ≠ '"' ∧ d ≠ '\\' := by
      simp only [Search.Json.hexValue, Option.bind_eq_bind, Option.bind_eq_some_iff] at h
      obtain ⟨_, hfirst, _, hsecond, _, hthird, _, hfourth, -⟩ := h
      have hnot : ∀ {d : Char} {n : ℕ}, Search.Json.hexDigit d = some n → d ≠ '"' ∧ d ≠ '\\' := by
        intro d n hd
        constructor
        · intro hquote
          rw [hdigit (.inl hquote)] at hd
          cases hd
        · intro hbackslash
          rw [hdigit (.inr hbackslash)] at hd
          cases hd
      simp only [List.forall_mem_cons]
      exact ⟨hnot hfirst, hnot hsecond, hnot hthird, hnot hfourth, fun _ hd =>
        absurd hd List.not_mem_nil⟩
    simp only [List.forall_mem_cons] at hplain
    obtain ⟨h1, h2, h3, h4, -⟩ := hplain
    simp only [List.cons_append]
    rw [takeBody, takeBody_plain h1.1 h1.2, takeBody_plain h2.1 h2.2, takeBody_plain h3.1 h3.2,
      takeBody_plain h4.1 h4.2, ih]
    · rfl

/-- The text of a string, and what follows it. -/
def takeString : List Char → Option (List Char × List Char)
  | '"' :: rest => (takeBody rest).map fun parts => (quoted parts.1, parts.2)
  | _ => none

theorem takeString_spells {value : String} (h : Spells text value) (rest : List Char) :
    takeString (text ++ rest) = some (text, rest) := by
  obtain ⟨body, rfl, hbody⟩ := h
  rw [quoted, List.cons_append, List.append_assoc, takeString]
  exact congrArg (Option.map _) (takeBody_literal hbody rest)

/-- A string or a list of strings, and what follows it. -/
def takeValue : List Char → Option (List Char × List Char)
  | '[' :: rest => (takeList takeString ']' rest).map fun parts => (arrayText parts.1, parts.2)
  | input => takeString input

def takeMember (input : List Char) : Option ((String × List Char) × List Char) :=
  (Search.Json.readQuoted input).bind fun name =>
    match name.2 with
    | ':' :: rest =>
      (takeValue rest).map fun parts => ((String.ofList name.1, parts.1), parts.2)
    | _ => none

def plainJson : Serde where
  quote value := quoted (Search.Json.writeString value)
  object
    | '\x7b' :: rest => whole (takeList takeMember '\x7d' rest)
    | _ => none
  array
    | '[' :: rest => whole (takeList takeString ']' rest)
    | _ => none
  string text := (whole (Search.Json.readQuoted text)).map String.ofList
  isNull text := decide (text = ['n', 'u', 'l', 'l'])

theorem Spells.start {value : String} (h : Spells text value) :
    ∃ rest, text = '"' :: rest := by
  obtain ⟨body, rfl, -⟩ := h
  exact ⟨_, rfl⟩

theorem takeList_strings {items : List (List Char)} (h : ∀ item ∈ items, ∃ value, Spells item value)
    (rest : List Char) :
    takeList takeString ']' (commas items ++ ']' :: rest) = some (items, rest) := by
  have hlist := @takeList_commas _ takeString ']' items id (by decide)
    (fun item hitem => by
      obtain ⟨value, hvalue⟩ := h item hitem
      obtain ⟨tail, htail⟩ := hvalue.start
      exact ⟨'"', tail, htail, by decide⟩)
    (fun item hitem rest => by
      obtain ⟨value, hvalue⟩ := h item hitem
      exact takeString_spells hvalue rest) rest
  rwa [List.map_id] at hlist

theorem takeValue_isValue (h : IsValue text) (rest : List Char) :
    takeValue (text ++ rest) = some (text, rest) := by
  rcases h with ⟨value, hvalue⟩ | ⟨items, rfl, hitems⟩
  · obtain ⟨tail, htail⟩ := hvalue.start
    have hstring := takeString_spells hvalue rest
    rw [htail] at hstring ⊢
    exact hstring
  · rw [arrayText, List.cons_append, List.append_assoc, List.singleton_append, takeValue,
      takeList_strings hitems]
    rfl

theorem literal_name {name : List Char} (h : ∀ c ∈ name, c ≠ '"' ∧ c ≠ '\\' ∧ 0x20 ≤ c.toNat) :
    Literal name name := by
  induction name with
  | nil => exact .nil
  | cons c name ih =>
    rw [List.forall_mem_cons] at h
    exact .plain c h.1.1 h.1.2.1 h.1.2.2 (ih h.2)

theorem takeMember_text {member : String × List Char} (hname : IsName member.1)
    (hvalue : IsValue member.2) (rest : List Char) :
    takeMember (memberText member ++ rest) = some (member, rest) := by
  have hread := Search.Json.readQuoted_literal (literal_name hname) (':' :: member.2 ++ rest)
  rw [memberText, List.append_assoc, takeMember, hread, Option.bind_some]
  simp only [List.cons_append, takeValue_isValue hvalue rest, Option.map_some, String.ofList_toList]

theorem plainJson_documented : plainJson.Documented where
  quote value := ⟨_, rfl, Search.Json.literal_writeString value⟩
  string := by
    rintro text value ⟨body, rfl, hbody⟩
    have hread := Search.Json.readQuoted_literal hbody []
    rw [List.append_nil] at hread
    simp [plainJson, hread, whole]
  array := by
    intro items hitems
    have hlist := takeList_strings hitems []
    simp only [plainJson, arrayText, hlist]
    rfl
  object := by
    intro members hmembers
    have hlist := @takeList_commas _ takeMember '\x7d' members memberText (by decide)
      (fun member _ => ⟨'"', _, rfl, by decide⟩)
      (fun member hmember rest =>
        takeMember_text (hmembers member hmember).1 (hmembers member hmember).2 rest) []
    simp only [plainJson, objectText, hlist]
    rfl
  notNull := by
    rintro c rest (rfl | rfl | rfl) <;> simp [plainJson]
  null := by
    intro text hnull
    obtain rfl := of_decide_eq_true hnull
    exact ⟨rfl, rfl⟩
  nothing := ⟨rfl, rfl, rfl⟩

/-! ### A stored album -/

def tomAndJerry : QueueItemSource := ⟨"album", "a1", "Tom & Jerry", "X", "", "", none⟩

/-- What a client sends for it, with nothing escaped. -/
def tomAndJerryText : List Char := objectText (tomAndJerry.members plainJson)

def oneTrack : Store := { Store.empty with tracks := AList.insert "track" ⟨true⟩ ∅ }

def appendAlbum : Event :=
  .mutate "owner" "0" (fun _ => "item")
    (.append "track" (String.ofList (sourceText plainJson tomAndJerry)))

theorem stored_album_read :
    (∃ stored, encode plainJson tomAndJerry = .ok stored ∧
      parseJson plainJson stored = .ok tomAndJerry) ∧
    ∃ s, appendAlbum.perform oneTrack = .ok s ∧
      ∃ queue, getQueue (fun text => parseJson plainJson text.toList) s "owner" = .ok queue ∧
        ∀ item ∈ queue.items, ∃ data, encode plainJson item.source = .ok data := by
  obtain ⟨hsources, hqueues⟩ := sources_round_trip plainJson_documented
  have hparse : parse plainJson (some tomAndJerryText) = .ok tomAndJerry := by decide +kernel
  obtain ⟨hfits, hround⟩ := hsources _ _ hparse
  obtain ⟨stored, hstored⟩ := hfits.mpr (by decide +kernel)
  have htext : encode plainJson tomAndJerry = .ok (sourceText plainJson tomAndJerry) := by
    decide +kernel
  refine ⟨⟨stored, hstored, hround stored hstored⟩, ?_⟩
  have hok : (appendAlbum.perform oneTrack).isOk = true := by decide +kernel
  cases hstep : appendAlbum.perform oneTrack with
  | error error =>
    rw [hstep] at hok
    cases hok
  | ok s =>
    refine ⟨s, rfl, hqueues oneTrack [appendAlbum] s ?_ ?_ (.cons hstep (.nil s)) "owner"⟩
    · intro id row hrow
      cases hrow
    · rw [List.forall_mem_singleton]
      exact ⟨some tomAndJerryText, tomAndJerry, _, hparse, htext, rfl⟩

/-! ### An album whose text is too long -/

theorem length_commas_members (members : List (String × List Char)) :
    (Utf8.encode (commas (members.map memberText))).length + 1 =
      (members.map fun member =>
        (Utf8.encode member.1.toList).length + (Utf8.encode member.2).length + 4).sum +
          if members = [] then 1 else 0 := by
  have hquote : String.utf8EncodeChar '"' = [0x22] := by decide
  have hcolon : String.utf8EncodeChar ':' = [0x3a] := by decide
  have hcomma : Utf8.encode [','] = [0x2c] := by decide
  induction members with
  | nil => rfl
  | cons member members ih =>
    have hmember : (Utf8.encode (memberText member)).length =
        (Utf8.encode member.1.toList).length + (Utf8.encode member.2).length + 3 := by
      simp only [memberText, quoted, Utf8.encode_append, Utf8.encode_cons, Utf8.encode_nil, hquote,
        hcolon, List.length_append, List.length_cons, List.length_nil]
      omega
    cases members with
    | nil => simp [commas, hmember]
    | cons next members =>
      simp only [commas, List.map_cons, List.intercalate_cons_cons, Utf8.encode_append,
        List.length_append, hmember, hcomma, List.sum_cons, reduceCtorEq, if_false,
        List.length_singleton] at ih ⊢
      omega

theorem length_objectText {members : List (String × List Char)} (hne : members ≠ []) :
    (Utf8.encode (objectText members)).length =
      (members.map fun member =>
        (Utf8.encode member.1.toList).length + (Utf8.encode member.2).length + 4).sum + 1 := by
  have hopen : String.utf8EncodeChar '\x7b' = [0x7b] := by decide
  have hclose : Utf8.encode ['\x7d'] = [0x7d] := by decide
  have hmembers := length_commas_members members
  rw [if_neg hne] at hmembers
  simp only [objectText, Utf8.encode_cons, Utf8.encode_append, hopen, hclose, List.length_append,
    List.length_singleton]
  omega

/-- The longest text of a field, of characters that are escaped. -/
def angles : String := String.ofList (List.replicate maxStringLength '<')

def anglesAlbum : QueueItemSource := ⟨"album", angles, angles, angles, "", "", none⟩

theorem isText_angles : IsText angles := by
  have hread : ∀ c ∈ List.replicate maxStringLength '<', Chars.isWhitespace c = false := by
    intro c hc
    rw [(List.mem_replicate.mp hc).2]
    decide
  have htrim : Chars.trim (List.replicate maxStringLength '<') =
    List.replicate maxStringLength '<' :=
    Chars.trim_eq_self (fun c hc => hread c (List.mem_of_mem_head? hc))
      fun c hc => hread c (List.mem_of_mem_getLast? hc)
  constructor
  · rw [isBlank, angles, String.toList_ofList, htrim]
    rfl
  · rw [angles, String.length_ofList, List.length_replicate]

theorem length_encode_flatMap (f : Char → List Char) (n : ℕ) (c : Char) :
    (Utf8.encode ((List.replicate n c).flatMap f)).length = n * (Utf8.encode (f c)).length := by
  induction n with
  | zero => simp
  | succ n ih =>
    rw [List.replicate_succ, List.flatMap_cons, Utf8.encode_append, List.length_append, ih,
      Nat.succ_mul, Nat.add_comm]

theorem length_encode_quoted (body : List Char) :
    (Utf8.encode (quoted body)).length = (Utf8.encode body).length + 2 := by
  have hquote : String.utf8EncodeChar '"' = [0x22] := by decide
  simp only [quoted, Utf8.encode_append, Utf8.encode_cons, Utf8.encode_nil, hquote,
    List.length_append, List.length_cons, List.length_nil]
  omega

/-- Written, the text is as long as it is; escaped, it is six times as long. -/
theorem length_quote_angles :
    (Utf8.encode (plainJson.quote angles)).length = 1026 ∧
      (Utf8.encode (escape (plainJson.quote angles))).length = 6146 := by
  have hbody : Search.Json.writeString angles =
      (List.replicate maxStringLength '<').flatMap Search.Json.writeCharacter := by
    rw [Search.Json.writeString, angles, String.toList_ofList]
  have hone : Search.Json.writeCharacter '<' = ['<'] := by decide
  have hplain : Search.Json.writeString angles = List.replicate maxStringLength '<' := by
    rw [hbody, List.flatMap_replicate, hone]
    generalize maxStringLength = n
    induction n with
    | zero => rfl
    | succ n ih => rw [List.replicate_succ, List.flatten_cons, ih, List.replicate_succ]; rfl
  have hshort : (Utf8.encode ['<']).length = 1 := by decide
  have hlong : (Utf8.encode (Search.Json.escapeCharacter '<')).length = 6 := by decide +kernel
  have hquote : plainJson.quote angles = quoted (Search.Json.writeString angles) := rfl
  constructor
  · rw [hquote, length_encode_quoted, hbody, length_encode_flatMap, hone, hshort]
    rfl
  · rw [hquote, Search.Json.escape_quoted, length_encode_quoted, hplain, escape,
      length_encode_flatMap, hlong]
    rfl

/-- The members of the album, each text spelled as `f` does. -/
theorem written_angles (f : List Char → List Char) :
    written f plainJson anglesAlbum =
      [("kind", f (plainJson.quote "album")), ("albumId", f (plainJson.quote angles)),
        ("albumTitle", f (plainJson.quote angles)),
        ("artistName", f (plainJson.quote angles))] := by
  have hne := isText_angles.ne_empty
  simp [written, QueueItemSource.members, anglesAlbum, hne]

theorem length_written_angles (f : List Char → List Char) :
    (Utf8.encode (objectText (written f plainJson anglesAlbum))).length =
      (Utf8.encode (f (plainJson.quote "album"))).length +
        3 * (Utf8.encode (f (plainJson.quote angles))).length + 48 := by
  have hkind : (Utf8.encode "kind".toList).length = 4 := by decide +kernel
  have hid : (Utf8.encode "albumId".toList).length = 7 := by decide +kernel
  have htitle : (Utf8.encode "albumTitle".toList).length = 10 := by decide +kernel
  have hartist : (Utf8.encode "artistName".toList).length = 10 := by decide +kernel
  rw [written_angles, length_objectText (List.cons_ne_nil _ _)]
  simp only [List.map_cons, List.map_nil, List.sum_cons, List.sum_nil, hkind, hid, htitle, hartist]
  generalize (Utf8.encode (f (plainJson.quote "album"))).length = kind
  generalize (Utf8.encode (f (plainJson.quote angles))).length = text
  omega

/-- The album is read from a request, and its text is too long to be stored. -/
theorem escaped_source_refused :
    ¬∀ raw source, parse plainJson raw = .ok source →
      ∃ stored, encode plainJson source = .ok stored := by
  intro hall
  have hs : Accepted anglesAlbum := .album isText_angles isText_angles isText_angles
  obtain ⟨hshort, hlong⟩ := length_quote_angles
  have hkind : (Utf8.encode (plainJson.quote "album")).length = 7 := by decide +kernel
  have hparse : parse plainJson (some (objectText (written id plainJson anglesAlbum))) =
      .ok anglesAlbum := by
    rw [parse, parseJson_written plainJson_documented id_respells hs, if_pos]
    rw [length_written_angles, id_eq, id_eq, hshort, hkind]
    decide
  obtain ⟨stored, hstored⟩ := hall _ _ hparse
  rw [encode_of_accepted plainJson_documented hs, if_neg] at hstored
  · cases hstored
  · rw [sourceText_eq plainJson_documented hs, length_written_angles, hlong, maxSourceBytes]
    omega

end Harmony.Playback
