/-
# Original formats are not lost

The file has one entry for each endpoint that the client changed, with the formats that
it had at first. Every command keeps this up, whatever fails in it and wherever it is
killed, but for one place: between the truncation and the writing of the file it has no
entry at all. Where no endpoint is changed then, nothing is lost.
-/

import Harmony.Library.Transition
import Harmony.PolicyConfig.Adapter

namespace Harmony.PolicyConfig

open Crash Crash.Program

/-! ### The books -/

/-- The entries are of different endpoints, hold their original formats, and are there for
every changed one. -/
structure Machine.Covers (m : Machine) (entries : List OriginalFormats) : Prop where
  nodup : (entries.map (·.deviceId)).Nodup
  original : ∀ entry ∈ entries, ∃ endpoint,
    m.endpoints.lookup entry.deviceId = some endpoint ∧ entry.formats = endpoint.original
  changed : ∀ id endpoint, m.endpoints.lookup id = some endpoint →
    endpoint.formats ≠ endpoint.original → ∃ entry ∈ entries, entry.deviceId = id

/-- Every endpoint has its original formats. -/
def Machine.Unchanged (m : Machine) : Prop :=
  ∀ id endpoint, m.endpoints.lookup id = some endpoint → endpoint.formats = endpoint.original

def Machine.Kept (m : Machine) : Prop :=
  (∃ entries, m.load = .ok entries ∧ m.Covers entries) ∨
    (∃ error, m.load = .error error) ∧ m.Unchanged

/-- The endpoints stay, with what they had at first. -/
def Follows (m t : Machine) : Prop :=
  ∀ id endpoint, m.endpoints.lookup id = some endpoint →
    ∃ endpoint', t.endpoints.lookup id = some endpoint' ∧ endpoint'.original = endpoint.original

/-- Nothing but the formats of the endpoints, and how far the program is, differs. -/
structure Touches (ids : List String) (m t : Machine) : Prop where
  file : t.file = m.file
  surroundings : t.surroundings = m.surroundings
  isRunning : t.isRunning = m.isRunning
  calls : m.calls ≤ t.calls
  others : ∀ id, id ∉ ids → t.endpoints.lookup id = m.endpoints.lookup id
  originals : Follows m t

/-- No call fails and nothing is killed, and every call still to come finds the endpoint
there and taking every format. -/
def Smooth (allowed : Label → Fate → Prop) (m : Machine) (id : String) : Prop :=
  (∀ l fate, allowed l fate → fate = .done) ∧
    ∀ n, m.calls ≤ n → (m.surroundings n).isActive id = true ∧
      ∀ current formats, (m.surroundings n).takes id current formats = formats

/-- Writing a file may fail only before it is changed. -/
def Legal (l : Label) (fate : Fate) : Prop := l = .write → ∀ progress, fate ≠ .fails progress

variable {entries : List OriginalFormats} {endpoint : Endpoint}

section Rules

variable {allowed : Label → Fate → Prop} {m t u : Machine} {ids : List String} {id : String}
  {original : OriginalFormats} {l : Label} {formats : Formats}

theorem Follows.trans (h : Follows m t) (h' : Follows t u) : Follows m u := by
  intro id endpoint hid
  obtain ⟨endpoint', hid', hsame⟩ := h id endpoint hid
  obtain ⟨endpoint'', hid'', hsame'⟩ := h' id endpoint' hid'
  exact ⟨endpoint'', hid'', hsame'.trans hsame⟩

theorem Follows.of_eq (h : t.endpoints = m.endpoints) : Follows m t :=
  fun id endpoint hid => ⟨endpoint, by rw [h, hid], rfl⟩

theorem Touches.refl (ids : List String) (m : Machine) : Touches ids m m where
  file := rfl
  surroundings := rfl
  isRunning := rfl
  calls := le_rfl
  others _ _ := rfl
  originals _ endpoint h := ⟨endpoint, h, rfl⟩

theorem Touches.trans (h : Touches ids m t) (h' : Touches ids t u) : Touches ids m u where
  file := h'.file.trans h.file
  surroundings := h'.surroundings.trans h.surroundings
  isRunning := h'.isRunning.trans h.isRunning
  calls := le_trans h.calls h'.calls
  others id hid := (h'.others id hid).trans (h.others id hid)
  originals := h.originals.trans h'.originals

theorem Touches.mono {ids' : List String} (h : Touches ids m t) (hids : ids ⊆ ids') :
    Touches ids' m t where
  file := h.file
  surroundings := h.surroundings
  isRunning := h.isRunning
  calls := h.calls
  others id hid := h.others id fun hmem => hid (hids hmem)
  originals := h.originals

theorem Touches.unchanged (h : Touches [] m t) (hunchanged : m.Unchanged) : t.Unchanged := by
  intro id endpoint hlookup
  rw [h.others id List.not_mem_nil] at hlookup
  exact hunchanged id endpoint hlookup

theorem Touches.load (h : Touches ids m t) : t.load = m.load := by
  rw [Machine.load, Machine.load, h.file]

/-- A changed endpoint is among those that the entries are of. -/
theorem Machine.Covers.touch (h : m.Covers entries) (htouches : Touches ids m t)
    (hids : ∀ id ∈ ids, ∃ entry ∈ entries, entry.deviceId = id) :
    t.Covers entries where
  nodup := h.nodup
  original entry hentry := by
    obtain ⟨endpoint, hlookup, hformats⟩ := h.original entry hentry
    obtain ⟨endpoint', hlookup', hsame⟩ := htouches.originals _ endpoint hlookup
    exact ⟨endpoint', hlookup', hformats.trans hsame.symm⟩
  changed id endpoint hlookup hchanged := by
    by_cases hid : id ∈ ids
    · exact hids id hid
    · rw [htouches.others id hid] at hlookup
      exact h.changed id endpoint hlookup hchanged

theorem Machine.Kept.touch (h : m.Kept) (htouches : Touches [] m t) : t.Kept := by
  have hload := htouches.load
  rcases h with ⟨entries, hentries, hcovers⟩ | ⟨⟨error, herror⟩, hunchanged⟩
  · exact Or.inl ⟨entries, hload.trans hentries,
      hcovers.touch htouches fun id hid => absurd hid (List.not_mem_nil)⟩
  · exact Or.inr ⟨⟨error, hload.trans herror⟩, htouches.unchanged hunchanged⟩

theorem touches_tick (m : Machine) : Touches [] m m.tick where
  file := rfl
  surroundings := rfl
  isRunning := rfl
  calls := Nat.le_succ _
  others _ _ := rfl
  originals _ endpoint h := ⟨endpoint, h, rfl⟩

/-! ### Calls -/

theorem ensures_call {α : Type} {fault : String} {f : Machine → Except String (α × Machine)}
    {Q : Exit String α → Machine → Prop} (hdone : ∀ a t, f m = .ok (a, t) → Q (.returned a) t.tick)
    (hrefused : ∀ error, f m = .error error → Q (.failed error) m)
    (hfails : (∃ n, allowed l (.fails n)) → Q (.failed fault) m.tick)
    (hdies : (∃ n, allowed l (.dies n)) → Q .died m.tick) :
    Ensures allowed (call l fault f) Q m := by
  refine .perform ?_ ?_ (fun n h => hfails ⟨n, h⟩) fun n h => hdies ⟨n, h⟩
  · intro _ a t hrun
    cases hf : f m with
    | error error => simp only [hf, Except.map, reduceCtorEq] at hrun
    | ok result =>
      simp only [hf, Except.map] at hrun
      cases hrun
      exact hdone _ _ hf
  · intro _ error hrun
    cases hf : f m with
    | error error' =>
      simp only [hf, Except.map, Except.error.injEq] at hrun
      exact hrun ▸ hrefused error' hf
    | ok result => simp only [hf, Except.map, reduceCtorEq] at hrun

/-- What a call that only reads leaves. -/
theorem ensures_ask {α : Type} {fault : String} {f : Machine → Except String α} :
    Ensures allowed (ask l fault f) (fun exit t => Touches [] m t ∧
      match exit with
      | .returned a => f m = .ok a
      | .failed error => f m = .error error ∨ ∃ n, allowed l (.fails n)
      | .died => ∃ n, allowed l (.dies n)) m := by
  refine ensures_call ?_ ?_ (fun h => ⟨touches_tick m, Or.inr h⟩) fun h => ⟨touches_tick m, h⟩
  · intro a t hrun
    cases hf : f m with
    | error error => simp only [hf, Except.map, reduceCtorEq] at hrun
    | ok value =>
      simp only [hf, Except.map] at hrun
      cases hrun
      exact ⟨touches_tick m, rfl⟩
  · intro error hrun
    cases hf : f m with
    | error error' =>
      simp only [hf, Except.map, Except.error.injEq] at hrun
      exact ⟨.refl [] m, Or.inl (hrun ▸ rfl)⟩
    | ok value => simp only [hf, Except.map, reduceCtorEq] at hrun

theorem Smooth.not_fails {n : ℕ} (h : Smooth allowed m id) (hfails : allowed l (.fails n)) :
    False := by
  have hdone := h.1 l _ hfails
  cases hdone

theorem Smooth.not_dies {n : ℕ} (h : Smooth allowed m id) (hdies : allowed l (.dies n)) :
    False := by
  have hdone := h.1 l _ hdies
  cases hdone

theorem ensures_isDeviceActive :
    Ensures allowed (isDeviceActive id) (fun exit t => Touches [] m t ∧
      match exit with
      | .returned active => Smooth allowed m id → active = true
      | .failed _ => False
      | .died => ∃ n, allowed .deviceState (.dies n)) m := by
  refine .handle ensures_ask ?_ ?_ ?_
  · rintro active t ⟨htouches, hactive⟩
    refine .pure ⟨htouches, fun hsmooth => ?_⟩
    cases hactive
    exact (hsmooth.2 m.calls le_rfl).1
  · rintro error t ⟨htouches, hfailed⟩
    refine .pure ⟨htouches, fun hsmooth => ?_⟩
    rcases hfailed with hrefused | ⟨n, hfails⟩
    · cases hrefused
    · exact (hsmooth.not_fails hfails).elim
  · rintro t ⟨htouches, hdies⟩
    exact ⟨htouches, hdies⟩

/-- The formats that the endpoint has. -/
theorem ensures_deviceFormats :
    Ensures allowed (deviceFormats id) (fun exit t => Touches [] m t ∧
      match exit with
      | .returned formats => ∃ endpoint, m.endpoints.lookup id = some endpoint ∧
          formats = endpoint.formats
      | .failed _ => m.endpoints.lookup id = none ∨ ∃ l n, allowed l (.fails n)
      | .died => ∃ l n, allowed l (.dies n)) m := by
  have hread : ∀ (s : Machine) (a : WaveFormat) (part : Formats → WaveFormat),
      (readEndpoint s id).map (fun endpoint => part endpoint.formats) = .ok a →
      ∃ endpoint, s.endpoints.lookup id = some endpoint ∧ a = part endpoint.formats := by
    intro s a part h
    rw [readEndpoint] at h
    cases hlookup : s.endpoints.lookup id with
    | none => simp only [hlookup, Except.map, reduceCtorEq] at h
    | some endpoint =>
      simp only [hlookup, Except.map, Except.ok.injEq] at h
      exact ⟨endpoint, rfl, h.symm⟩
  have hrefused : ∀ (s : Machine) (error : String) (part : Formats → WaveFormat),
      (readEndpoint s id).map (fun endpoint => part endpoint.formats) = .error error →
      s.endpoints.lookup id = none := by
    intro s error part h
    rw [readEndpoint] at h
    cases hlookup : s.endpoints.lookup id with
    | none => rfl
    | some endpoint => simp only [hlookup, Except.map, reduceCtorEq] at h
  refine .seq ensures_ask ?_ ?_ ?_
  · rintro device t ⟨htouches, hdevice⟩
    obtain ⟨endpoint, hlookup, rfl⟩ := hread m device Formats.device hdevice
    refine .seq ensures_ask ?_ ?_ ?_
    · rintro mix u ⟨htouches', hmix⟩
      obtain ⟨endpoint', hlookup', rfl⟩ := hread t mix Formats.mix hmix
      rw [htouches.others id List.not_mem_nil, hlookup] at hlookup'
      cases hlookup'
      exact .pure ⟨htouches.trans htouches', endpoint, hlookup, rfl⟩
    · rintro error u ⟨htouches', hfailed⟩
      refine ⟨htouches.trans htouches', ?_⟩
      rcases hfailed with herror | ⟨n, hfails⟩
      · have hnone := hrefused t error Formats.mix herror
        rw [htouches.others id List.not_mem_nil] at hnone
        exact Or.inl hnone
      · exact Or.inr ⟨_, n, hfails⟩
    · rintro u ⟨htouches', n, hdies⟩
      exact ⟨htouches.trans htouches', _, n, hdies⟩
  · rintro error t ⟨htouches, hfailed⟩
    refine ⟨htouches, ?_⟩
    rcases hfailed with herror | ⟨n, hfails⟩
    · exact Or.inl (hrefused m error Formats.device herror)
    · exact Or.inr ⟨_, n, hfails⟩
  · rintro t ⟨htouches, n, hdies⟩
    exact ⟨htouches, _, n, hdies⟩

theorem touches_setFormats (m : Machine) (id : String) (change : Formats → Formats) :
    Touches [id] m { m with
      endpoints := m.endpoints.modify id fun endpoint =>
        { endpoint with formats := change endpoint.formats } } where
  file := rfl
  surroundings := rfl
  isRunning := rfl
  calls := le_rfl
  others other hother := by
    rw [List.mem_singleton] at hother
    dsimp only
    rw [Table.lookup_modify, if_neg hother]
  originals other endpoint' hother := by
    dsimp only
    rw [Table.lookup_modify]
    split_ifs
    · rw [hother]
      exact ⟨_, rfl, rfl⟩
    · exact ⟨endpoint', hother, rfl⟩

theorem ensures_setDeviceFormats (hlookup : m.endpoints.lookup id = some endpoint) :
    Ensures allowed (setDeviceFormats id formats) (fun exit t => Touches [id] m t ∧
      match exit with
      | .returned _ => Smooth allowed m id →
          ∃ endpoint', t.endpoints.lookup id = some endpoint' ∧ endpoint'.formats = formats
      | .failed _ => ¬Smooth allowed m id
      | .died => ∃ l n, allowed l (.dies n)) m := by
  refine ensures_call ?_ ?_ ?_ ?_
  · intro a t hrun
    simp only [readEndpoint, hlookup, Except.map] at hrun
    cases hrun
    have hset := touches_setFormats m id fun current => m.here.takes id current formats
    refine ⟨hset.trans ((touches_tick _).mono (List.nil_subset _)), fun hsmooth => ?_⟩
    refine ⟨{ endpoint with formats := m.here.takes id endpoint.formats formats }, ?_, ?_⟩
    · change (m.endpoints.modify id _).lookup id = _
      rw [Table.lookup_modify, if_pos rfl, hlookup, Option.map_some]
    · exact (hsmooth.2 m.calls le_rfl).2 endpoint.formats formats
  · intro error hrun
    simp only [readEndpoint, hlookup, Except.map, reduceCtorEq] at hrun
  · rintro ⟨n, hfails⟩
    exact ⟨(touches_tick m).mono (List.nil_subset _), fun hsmooth => hsmooth.not_fails hfails⟩
  · rintro ⟨n, hdies⟩
    exact ⟨(touches_tick m).mono (List.nil_subset _), _, n, hdies⟩

/-- What all calls to come find, the later ones find. -/
theorem Touches.smooth (h : Touches ids m t) (hsmooth : Smooth allowed m id) :
    Smooth allowed t id := by
  refine ⟨hsmooth.1, fun n hn => ?_⟩
  rw [h.surroundings]
  exact hsmooth.2 n (le_trans h.calls hn)

/-- The endpoint has the formats when it returns, and nothing else is changed. -/
theorem ensures_setDeviceFormatsIfChanged (hlookup : m.endpoints.lookup id = some endpoint) :
    Ensures allowed (setDeviceFormatsIfChanged id formats) (fun exit t => Touches [id] m t ∧
      match exit with
      | .returned _ => ∃ endpoint', t.endpoints.lookup id = some endpoint' ∧
          endpoint'.formats = formats
      | .failed _ => ¬Smooth allowed m id
      | .died => ∃ l n, allowed l (.dies n)) m := by
  have hnil : ∀ {s s' : Machine}, Touches [] s s' → Touches [id] s s' :=
    fun h => h.mono (List.nil_subset _)
  refine .seq ensures_deviceFormats ?_ ?_ ?_
  · rintro current t ⟨htouches, endpoint', hcurrent, rfl⟩
    have ht : t.endpoints.lookup id = some endpoint' := by
      rw [htouches.others id List.not_mem_nil, hcurrent]
    split_ifs with hsame
    · exact .pure ⟨hnil htouches, endpoint', ht, hsame⟩
    · refine .seq (ensures_setDeviceFormats ht) ?_ ?_ ?_
      · rintro _ u ⟨htouches', hset⟩
        have hu : Touches [id] m u := (hnil htouches).trans htouches'
        obtain ⟨endpoint'', hlookup'', -⟩ := hu.originals id endpoint hlookup
        refine .seq ensures_deviceFormats ?_ ?_ ?_
        · rintro read v ⟨htouches'', endpoint₃, hlookup₃, rfl⟩
          have hv : Touches [id] m v := hu.trans (hnil htouches'')
          split_ifs with hread
          · refine .pure ⟨hv, endpoint₃, ?_, hread⟩
            rw [htouches''.others id List.not_mem_nil, hlookup₃]
          · refine .fail ⟨hv, fun hsmooth => hread ?_⟩
            obtain ⟨endpoint₄, hlookup₄, hformats⟩ := hset (htouches.smooth hsmooth)
            rw [hlookup₃] at hlookup₄
            cases hlookup₄
            exact hformats
        · rintro error v ⟨htouches'', hfailed⟩
          refine ⟨hu.trans (hnil htouches''), fun hsmooth => ?_⟩
          rcases hfailed with hnone | ⟨l, n, hfails⟩
          · rw [hlookup''] at hnone
            cases hnone
          · exact hsmooth.not_fails hfails
        · rintro v ⟨htouches'', hdies⟩
          exact ⟨hu.trans (hnil htouches''), hdies⟩
      · rintro error u ⟨htouches', hrough⟩
        exact ⟨(hnil htouches).trans htouches', fun hsmooth => hrough (htouches.smooth hsmooth)⟩
      · rintro u ⟨htouches', hdies⟩
        exact ⟨(hnil htouches).trans htouches', hdies⟩
  · rintro error t ⟨htouches, hfailed⟩
    refine ⟨hnil htouches, fun hsmooth => ?_⟩
    rcases hfailed with hnone | ⟨l, n, hfails⟩
    · rw [hlookup] at hnone
      cases hnone
    · exact hsmooth.not_fails hfails
  · rintro t ⟨htouches, hdies⟩
    exact ⟨hnil htouches, hdies⟩

theorem ensures_setDeviceFormatsIfChanged_same (hlookup : m.endpoints.lookup id = some endpoint)
    (hsame : endpoint.formats = formats) :
    Ensures allowed (setDeviceFormatsIfChanged id formats) (fun _ t => Touches [] m t) m := by
  refine .seq ensures_deviceFormats ?_ (fun _ _ h => h.1) fun _ h => h.1
  rintro current t ⟨htouches, endpoint', hcurrent, rfl⟩
  rw [hlookup] at hcurrent
  cases hcurrent
  rw [if_pos hsame]
  exact .pure htouches

/-! ### Restoring -/

/-- Each endpoint of the list is there, and none twice. -/
structure Present (m : Machine) (originals : List OriginalFormats) : Prop where
  nodup : (originals.map (·.deviceId)).Nodup
  there : ∀ original ∈ originals, ∃ endpoint,
    m.endpoints.lookup original.deviceId = some endpoint

/-- What a restoring of the list leaves. -/
structure Restored (allowed : Label → Fate → Prop) (m : Machine)
    (originals pending : List OriginalFormats) (t : Machine) : Prop where
  touches : Touches (originals.map (·.deviceId)) m t
  sublist : pending.Sublist originals
  restored : ∀ original ∈ originals, original ∉ pending → ∃ endpoint,
    t.endpoints.lookup original.deviceId = some endpoint ∧ endpoint.formats = original.formats
  rough : ∀ original ∈ pending, ¬Smooth allowed m original.deviceId

theorem touches_eprintln (m : Machine) (message : String) :
    Touches [] m { m with stderr := message :: m.stderr } where
  file := rfl
  surroundings := rfl
  isRunning := rfl
  calls := le_rfl
  others _ _ := rfl
  originals _ endpoint h := ⟨endpoint, h, rfl⟩

theorem Present.touch {originals : List OriginalFormats} (h : Present m originals)
    (htouches : Touches ids m t) : Present t originals where
  nodup := h.nodup
  there original horiginal := by
    obtain ⟨endpoint, hlookup⟩ := h.there original horiginal
    obtain ⟨endpoint', hlookup', -⟩ := htouches.originals _ endpoint hlookup
    exact ⟨endpoint', hlookup'⟩

/-- The rest of a list goes on from where the first endpoint was restored or not. -/
theorem Restored.cons {rest pending : List OriginalFormats}
    (htouches : Touches [original.deviceId] m t) (h : Restored allowed t rest pending u)
    (hnew : original.deviceId ∉ rest.map (·.deviceId))
    (hback : ∃ endpoint, t.endpoints.lookup original.deviceId = some endpoint ∧
      endpoint.formats = original.formats) :
    Restored allowed m (original :: rest) pending u where
  touches :=
    (htouches.mono (List.cons_subset_cons _ (List.nil_subset _))).trans
      (h.touches.mono (List.subset_cons_self _ _))
  sublist := h.sublist.cons _
  restored other hother hpending := by
    rcases List.mem_cons.mp hother with rfl | hrest
    · obtain ⟨endpoint, hlookup, hformats⟩ := hback
      exact ⟨endpoint, (h.touches.others _ hnew).trans hlookup, hformats⟩
    · exact h.restored other hrest hpending
  rough other hother hsmooth := h.rough other hother (htouches.smooth hsmooth)

/-- It waits on. -/
theorem Restored.wait {rest pending : List OriginalFormats}
    (htouches : Touches [original.deviceId] m t) (h : Restored allowed t rest pending u)
    (hrough : ¬Smooth allowed m original.deviceId) :
    Restored allowed m (original :: rest) (original :: pending) u where
  touches :=
    (htouches.mono (List.cons_subset_cons _ (List.nil_subset _))).trans
      (h.touches.mono (List.subset_cons_self _ _))
  sublist := h.sublist.cons_cons _
  restored other hother hpending := by
    rcases List.mem_cons.mp hother with rfl | hrest
    · exact absurd List.mem_cons_self hpending
    · exact h.restored other hrest fun hmem => hpending (List.mem_cons_of_mem _ hmem)
  rough other hother hsmooth := by
    rcases List.mem_cons.mp hother with rfl | hrest
    · exact hrough hsmooth
    · exact h.rough other hrest (htouches.smooth hsmooth)

theorem ensures_restoreEach (originals : List OriginalFormats) (h : Present m originals) :
    Ensures allowed (restoreEach originals) (fun exit t =>
      match exit with
      | .returned (pending, _) => Restored allowed m originals pending t
      | .failed _ => False
      | .died => Touches (originals.map (·.deviceId)) m t ∧
          ∃ l n, allowed l (.dies n)) m := by
  induction originals generalizing m with
  | nil =>
    exact .pure
      { touches := .refl _ m
        sublist := List.Sublist.refl _
        restored := fun original horiginal => absurd horiginal List.not_mem_nil
        rough := fun original horiginal => absurd horiginal List.not_mem_nil }
  | cons original rest ih =>
    obtain ⟨hnew, hnodup⟩ := List.nodup_cons.mp h.nodup
    have hnil : ∀ {s s' : Machine}, Touches [] s s' → Touches [original.deviceId] s s' :=
      fun h => h.mono (List.nil_subset _)
    have hall : ∀ {s s' : Machine}, Touches [original.deviceId] s s' →
        Touches ((original :: rest).map (·.deviceId)) s s' :=
      fun h => h.mono (List.cons_subset_cons _ (List.nil_subset _))
    have hrest : ∀ {s : Machine}, Touches [original.deviceId] m s → Present s rest := by
      intro s hs
      have htouched := h.touch hs
      exact ⟨hnodup, fun other hother => htouched.there other (List.mem_cons_of_mem _ hother)⟩
    refine .seq ensures_isDeviceActive ?_ (fun _ _ hfalse => hfalse.2.elim) ?_
    · rintro active t ⟨htouches, hactive⟩
      split_ifs with his
      · refine .bind (.update ?_)
        have hprinted := htouches.trans (touches_eprintln t
          "Adaptive restoring the original output format.")
        obtain ⟨endpoint, hlookup⟩ := (h.touch hprinted).there original List.mem_cons_self
        refine .handleFailure (ensures_setDeviceFormatsIfChanged hlookup) ?_ ?_ ?_
        · rintro _ v ⟨htouches', hback⟩
          have hv := (hnil hprinted).trans htouches'
          refine .seq (ih (hrest hv)) ?_ (fun _ _ hfalse => hfalse) ?_
          · rintro ⟨pending, firstError⟩ w hrestored
            exact .pure (.cons hv hrestored hnew hback)
          · rintro w ⟨htouches'', hdies⟩
            exact ⟨(hall hv).trans (htouches''.mono (List.subset_cons_self _ _)), hdies⟩
        · rintro error v ⟨htouches', hrough⟩
          have hv := (hnil hprinted).trans htouches'
          refine .seq (ih (hrest hv)) ?_ (fun _ _ hfalse => hfalse) ?_
          · rintro ⟨pending, firstError⟩ w hrestored
            exact .pure (.wait hv hrestored fun hsmooth => hrough (hprinted.smooth hsmooth))
          · rintro w ⟨htouches'', hdies⟩
            exact ⟨(hall hv).trans (htouches''.mono (List.subset_cons_self _ _)), hdies⟩
        · rintro v ⟨htouches', hdies⟩
          exact ⟨hall ((hnil hprinted).trans htouches'), hdies⟩
      · refine .bind (.update ?_)
        have hprinted := hnil (htouches.trans (touches_eprintln t
          "Adaptive keeps the original format of an absent output device until it returns."))
        refine .seq (ih (hrest hprinted)) ?_ (fun _ _ hfalse => hfalse) ?_
        · rintro ⟨pending, firstError⟩ w hrestored
          exact .pure (.wait hprinted hrestored fun hsmooth => his (hactive hsmooth))
        · rintro w ⟨htouches'', hdies⟩
          exact ⟨(hall hprinted).trans (htouches''.mono (List.subset_cons_self _ _)), hdies⟩
    · rintro t ⟨htouches, n, hdies⟩
      exact ⟨hall (hnil htouches), _, n, hdies⟩

/-! ### Storing -/

theorem Machine.Covers.of_eq (h : m.Covers entries) (hendpoints : t.endpoints = m.endpoints) :
    t.Covers entries where
  nodup := h.nodup
  original := by
    rw [hendpoints]
    exact h.original
  changed := by
    rw [hendpoints]
    exact h.changed

theorem Machine.Unchanged.of_eq (h : m.Unchanged) (hendpoints : t.endpoints = m.endpoints) :
    t.Unchanged := by
  rw [Machine.Unchanged, hendpoints]
  exact h

theorem load_saved (m : Machine) (entries : List OriginalFormats) :
    ({ m with file := .saved (entries.map OriginalFormats.toSaved) } : Machine).load =
      .ok entries := by
  have hread : (entries.map OriginalFormats.toSaved).mapM OriginalFormats.fromSaved =
      some entries := by
    induction entries with
    | nil => rfl
    | cons entry entries ih =>
      rw [List.map_cons, List.mapM_cons, OriginalFormats.fromSaved_toSaved, ih]
      rfl
  simp only [Machine.load, hread]

theorem ensures_changeFile {fault : String} {file : SavedFile} :
    Ensures allowed (changeFile l fault file) (fun exit t =>
      match exit with
      | .returned _ => t = { m with file }
      | .failed _ => t = m ∧ ∃ n, allowed l (.fails n)
      | .died => t = m ∧ ∃ n, allowed l (.dies n)) m := by
  refine .perform ?_ ?_ (fun n h => ⟨rfl, n, h⟩) fun n h => ⟨rfl, n, h⟩
  · rintro _ a t hrun
    exact (Prod.mk.inj (Except.ok.inj hrun)).2.symm
  · rintro _ error hrun
    cases hrun

/-- The file has the entries, or is as it was, or is cut off. -/
theorem ensures_store (hlegal : ∀ l fate, allowed l fate → Legal l fate)
    (entries : List OriginalFormats) :
    Ensures allowed (store entries) (fun exit t => t.endpoints = m.endpoints ∧
      match exit with
      | .returned _ => t.load = .ok entries
      | .failed _ => t.file = m.file ∧ ∃ l n, allowed l (.fails n)
      | .died => t.file = m.file ∧ (∃ l n, allowed l (.dies n)) ∨
          t.file = .truncated ∧ ∃ n, allowed .write (.dies n)) m := by
  rw [store]
  split_ifs with hempty
  · subst hempty
    refine ensures_changeFile.mono fun exit t h => ?_
    cases exit with
    | returned _ =>
      obtain rfl := h
      exact ⟨rfl, rfl⟩
    | failed error =>
      obtain ⟨rfl, n, hfails⟩ := h
      exact ⟨rfl, rfl, _, n, hfails⟩
    | died =>
      obtain ⟨rfl, n, hdies⟩ := h
      exact ⟨rfl, Or.inl ⟨rfl, _, n, hdies⟩⟩
  · refine .bind (.perform ?_ ?_ (fun n h => ⟨rfl, rfl, _, n, h⟩)
      fun n h => ⟨rfl, Or.inl ⟨rfl, _, n, h⟩⟩)
    · rintro _ a t hrun
      cases hrun
      refine .seq ensures_changeFile ?_ ?_ ?_
      · rintro _ t rfl
        refine ensures_changeFile.mono fun exit u h => ?_
        cases exit with
        | returned _ =>
          obtain rfl := h
          exact ⟨rfl, load_saved _ entries⟩
        | failed error =>
          -- Writing fails before the file is changed.
          obtain ⟨-, n, hfails⟩ := h
          exact absurd rfl (hlegal _ _ hfails rfl n)
        | died =>
          obtain ⟨rfl, n, hdies⟩ := h
          exact ⟨rfl, Or.inr ⟨rfl, n, hdies⟩⟩
      · rintro error t ⟨rfl, n, hfails⟩
        exact ⟨rfl, rfl, _, n, hfails⟩
      · rintro t ⟨rfl, n, hdies⟩
        exact ⟨rfl, Or.inl ⟨rfl, _, n, hdies⟩⟩
    · rintro _ error hrun
      cases hrun

/-- The entries stay those of the file while it is not changed. -/
theorem Machine.Kept.of_covers (hload : m.load = .ok entries) (h : m.Covers entries) :
    m.Kept := Or.inl ⟨entries, hload, h⟩

theorem Machine.load_eq (h : t.file = m.file) : t.load = m.load := by
  rw [Machine.load, Machine.load, h]

theorem Machine.Kept.of_eq (h : m.Kept) (hfile : t.file = m.file)
    (hendpoints : t.endpoints = m.endpoints) : t.Kept := by
  have hload := Machine.load_eq hfile
  rcases h with ⟨entries, hentries, hcovers⟩ | ⟨⟨error, herror⟩, hunchanged⟩
  · exact Or.inl ⟨entries, hload.trans hentries, hcovers.of_eq hendpoints⟩
  · exact Or.inr ⟨⟨error, hload.trans herror⟩, hunchanged.of_eq hendpoints⟩

/-- The client died while the file had no entries, and before it changed anything. -/
def IsCut {α : Type} (allowed : Label → Fate → Prop) (m : Machine) (exit : Exit String α)
    (t : Machine) : Prop :=
  exit = .died ∧ t.file = .truncated ∧ (∃ n, allowed .write (.dies n)) ∧
    (m.Unchanged → t.Unchanged)

/-- What a command leaves, however it ends. -/
def Leaves {α : Type} (allowed : Label → Fate → Prop) (m : Machine) (exit : Exit String α)
    (t : Machine) : Prop :=
  Follows m t ∧ (t.Kept ∨ IsCut allowed m exit t)

/-- The endpoints that were as at first, or are of the list, are so in the end, when nothing
goes wrong. -/
def Repairs (allowed : Label → Fate → Prop) (m : Machine) (ids : List String) (t : Machine) :
    Prop :=
  ∀ id endpoint, m.endpoints.lookup id = some endpoint → Smooth allowed m id →
    (endpoint.formats = endpoint.original ∨ id ∈ ids) →
    ∃ endpoint', t.endpoints.lookup id = some endpoint' ∧ endpoint'.formats = endpoint'.original

theorem Repairs.of_dies (h : ∃ l n, allowed l (.dies n)) (ids : List String) :
    Repairs allowed m ids t := by
  intro id endpoint _ hsmooth
  obtain ⟨l, n, hdies⟩ := h
  exact (hsmooth.not_dies hdies).elim

theorem Repairs.of_fails (h : ∃ l n, allowed l (.fails n)) (ids : List String) :
    Repairs allowed m ids t := by
  intro id endpoint _ hsmooth
  obtain ⟨l, n, hfails⟩ := h
  exact (hsmooth.not_fails hfails).elim

theorem Repairs.of_eq (h : Repairs allowed m ids t) (hendpoints : u.endpoints = t.endpoints) :
    Repairs allowed m ids u := by
  intro id endpoint hlookup hsmooth hcase
  rw [hendpoints]
  exact h id endpoint hlookup hsmooth hcase

/-! ### Restoring and saving -/

section Restoring

variable {originals keep pending : List OriginalFormats}

/-- The endpoints that a restoring left out of the entries have their formats back. -/
theorem Restored.covers (h : Restored allowed m originals pending t)
    (hcovers : m.Covers (originals ++ keep)) : t.Covers (pending ++ keep) := by
  have hids : ∀ id ∈ originals.map (·.deviceId),
      ∃ entry ∈ originals ++ keep, entry.deviceId = id := by
    intro id hid
    obtain ⟨original, horiginal, rfl⟩ := List.mem_map.mp hid
    exact ⟨original, List.mem_append_left keep horiginal, rfl⟩
  have hall := hcovers.touch h.touches hids
  have hsublist : (pending ++ keep).Sublist (originals ++ keep) :=
    h.sublist.append (List.Sublist.refl keep)
  refine ⟨hall.nodup.sublist (hsublist.map _), fun entry hentry =>
    hall.original entry (hsublist.subset hentry), fun id endpoint hlookup hchanged => ?_⟩
  obtain ⟨entry, hentry, rfl⟩ := hall.changed id endpoint hlookup hchanged
  rcases List.mem_append.mp hentry with horiginal | hkeep
  · by_cases hpending : entry ∈ pending
    · exact ⟨entry, List.mem_append_left keep hpending, rfl⟩
    · -- It was restored, so it is not changed.
      obtain ⟨endpoint', hlookup', hformats⟩ := h.restored entry horiginal hpending
      obtain ⟨endpoint'', hlookup'', hsaved⟩ := hall.original entry hentry
      rw [hlookup] at hlookup' hlookup''
      cases hlookup'
      cases hlookup''
      exact absurd (hformats.trans hsaved) hchanged
  · exact ⟨entry, List.mem_append_right pending hkeep, rfl⟩

theorem Restored.repairs (h : Restored allowed m originals pending t)
    (hcovers : m.Covers (originals ++ keep)) :
    Repairs allowed m (originals.map (·.deviceId)) t := by
  intro id endpoint hlookup hsmooth hcase
  by_cases hid : id ∈ originals.map (·.deviceId)
  · obtain ⟨original, horiginal, rfl⟩ := List.mem_map.mp hid
    have hpending : original ∉ pending := fun hmem => h.rough original hmem hsmooth
    obtain ⟨endpoint', hlookup', hformats⟩ := h.restored original horiginal hpending
    obtain ⟨endpoint'', hlookup'', hsaved⟩ :=
      hcovers.original original (List.mem_append_left keep horiginal)
    obtain ⟨endpoint₃, hlookup₃, hsame⟩ := h.touches.originals _ endpoint hlookup
    rw [hlookup] at hlookup''
    cases hlookup''
    rw [hlookup'] at hlookup₃
    cases hlookup₃
    exact ⟨endpoint', hlookup', hformats.trans (hsaved.trans hsame.symm)⟩
  · have hunchanged := hcase.resolve_right hid
    exact ⟨endpoint, (h.touches.others id hid).trans hlookup, hunchanged⟩

theorem Machine.Covers.present (h : m.Covers (originals ++ keep)) : Present m originals where
  nodup := by
    have hnodup := h.nodup
    rw [List.map_append] at hnodup
    exact hnodup.of_append_left
  there original horiginal := by
    obtain ⟨endpoint, hlookup, -⟩ := h.original original (List.mem_append_left keep horiginal)
    exact ⟨endpoint, hlookup⟩

/-- Endpoints that have the formats of their entries are left as they are. -/
theorem ensures_restoreEach_same (originals : List OriginalFormats)
    (h : ∀ original ∈ originals, ∃ endpoint,
      m.endpoints.lookup original.deviceId = some endpoint ∧
        endpoint.formats = original.formats) :
    Ensures allowed (restoreEach originals) (fun _ t => Touches [] m t) m := by
  induction originals generalizing m with
  | nil => exact .pure (.refl [] m)
  | cons original rest ih =>
    obtain ⟨endpoint, hlookup, hsame⟩ := h original List.mem_cons_self
    have hrest : ∀ {s : Machine}, Touches [] m s →
        Ensures allowed (restoreEach rest) (fun _ t => Touches [] m t) s := by
      intro s hs
      refine (ih fun other hother => ?_).mono fun _ _ ht => hs.trans ht
      rw [hs.others _ List.not_mem_nil]
      exact h other (List.mem_cons_of_mem _ hother)
    refine .seq (ensures_isDeviceActive.mono fun _ _ h => h.1) ?_ (fun _ _ h => h) fun _ h => h
    intro active t htouches
    split_ifs
    · refine .bind (.update ?_)
      have hprinted := htouches.trans (touches_eprintln t
        "Adaptive restoring the original output format.")
      have hlookup' := (hprinted.others _ List.not_mem_nil).trans hlookup
      refine .handleFailure ((ensures_setDeviceFormatsIfChanged_same hlookup' hsame).mono
        fun _ _ hs => hprinted.trans hs) ?_ ?_ fun _ hs => hs
      · intro _ s hs
        exact .seq (hrest hs) (fun _ _ hu => .pure hu) (fun _ _ hu => hu) fun _ hu => hu
      · intro _ s hs
        exact .seq (hrest hs) (fun _ _ hu => .pure hu) (fun _ _ hu => hu) fun _ hu => hu
    · refine .bind (.update ?_)
      exact .seq (hrest (htouches.trans (touches_eprintln t _)))
        (fun _ _ hu => .pure hu) (fun _ _ hu => hu) fun _ hu => hu

theorem ensures_restoreEach_unchanged (h : m.Covers (originals ++ keep)) :
    Ensures allowed (restoreEach originals) (fun _ t => m.Unchanged → t.Unchanged) m := by
  by_cases hunchanged : m.Unchanged
  · refine (ensures_restoreEach_same originals fun original horiginal => ?_).mono
      fun _ _ ht => ht.unchanged
    obtain ⟨endpoint, hlookup, hformats⟩ :=
      h.original original (List.mem_append_left keep horiginal)
    exact ⟨endpoint, hlookup, (hunchanged _ endpoint hlookup).trans hformats.symm⟩
  · exact (ensures_restoreEach originals h.present).mono fun _ _ _ hm => absurd hm hunchanged

/-- What a restoring of some of the saved endpoints leaves. -/
theorem ensures_restorePresent (hlegal : ∀ l fate, allowed l fate → Legal l fate)
    (hload : m.load = .ok entries) (hcovers : m.Covers entries)
    (hparts : m.Covers (originals ++ keep))
    (hin : ∀ original ∈ originals, ∃ entry ∈ entries, entry.deviceId = original.deviceId) :
    Ensures allowed (restorePresent originals keep) (fun exit t => Leaves allowed m exit t ∧
      Repairs allowed m (originals.map (·.deviceId)) t ∧ (m.Unchanged → t.Unchanged) ∧
      ∀ pending, exit = .returned pending → pending.Sublist originals ∧
        t.load = .ok (pending ++ keep) ∧ t.Covers (pending ++ keep)) m := by
  have hids : ∀ id ∈ originals.map (·.deviceId), ∃ entry ∈ entries, entry.deviceId = id := by
    intro id hid
    obtain ⟨original, horiginal, rfl⟩ := List.mem_map.mp hid
    exact hin original horiginal
  refine .seq ((ensures_restoreEach originals hparts.present).and
    (ensures_restoreEach_unchanged hparts)) ?_ (fun _ _ hfalse => hfalse.1.elim) ?_
  · rintro ⟨pending, firstError⟩ t ⟨hrestored, hunchanged⟩
    have hbefore : t.Covers entries := hcovers.touch hrestored.touches hids
    have hafter : t.Covers (pending ++ keep) := hrestored.covers hparts
    have hrepairs := hrestored.repairs hparts
    refine .seq (ensures_store hlegal (pending ++ keep)) ?_ ?_ ?_
    · rintro _ u ⟨hendpoints, hstored⟩
      have hfollows := hrestored.touches.originals.trans (.of_eq hendpoints)
      have hcovered := hafter.of_eq hendpoints
      cases firstError with
      | some error =>
        exact .fail ⟨⟨hfollows, Or.inl (.of_covers hstored hcovered)⟩,
          hrepairs.of_eq hendpoints, fun h => (hunchanged h).of_eq hendpoints,
          fun _ hexit => by cases hexit⟩
      | none =>
        refine .pure ⟨⟨hfollows, Or.inl (.of_covers hstored hcovered)⟩,
          hrepairs.of_eq hendpoints, fun h => (hunchanged h).of_eq hendpoints,
          fun other hexit => ?_⟩
        obtain rfl := Exit.returned.inj hexit
        exact ⟨hrestored.sublist, hstored, hcovered⟩
    · rintro error u ⟨hendpoints, hfile, hfails⟩
      have hfollows := hrestored.touches.originals.trans (.of_eq hendpoints)
      have hsame : u.load = .ok entries :=
        (Machine.load_eq (hfile.trans hrestored.touches.file)).trans hload
      exact ⟨⟨hfollows, Or.inl (.of_covers hsame (hbefore.of_eq hendpoints))⟩,
        .of_fails hfails _, fun h => (hunchanged h).of_eq hendpoints,
        fun _ hexit => by cases hexit⟩
    · rintro u ⟨hendpoints, hfile⟩
      have hfollows := hrestored.touches.originals.trans (.of_eq hendpoints)
      have hkeeps : m.Unchanged → u.Unchanged := fun h => (hunchanged h).of_eq hendpoints
      rcases hfile with ⟨hsame, hdies⟩ | ⟨hcut, n, hdies⟩
      · have hload' : u.load = .ok entries :=
          (Machine.load_eq (hsame.trans hrestored.touches.file)).trans hload
        exact ⟨⟨hfollows, Or.inl (.of_covers hload' (hbefore.of_eq hendpoints))⟩,
          .of_dies hdies _, hkeeps, fun _ hexit => by cases hexit⟩
      · exact ⟨⟨hfollows, Or.inr ⟨rfl, hcut, ⟨n, hdies⟩, hkeeps⟩⟩, .of_dies ⟨_, n, hdies⟩ _,
          hkeeps, fun _ hexit => by cases hexit⟩
  · rintro t ⟨⟨htouches, hdies⟩, hunchanged⟩
    exact ⟨⟨htouches.originals, Or.inl (.of_covers (htouches.load.trans hload)
      (hcovers.touch htouches hids))⟩, .of_dies hdies _, hunchanged,
      fun _ hexit => by cases hexit⟩

/-- Where the machine is kept and nothing but the progress changes, a command may end. -/
theorem Leaves.of_touches {α : Type} {exit : Exit String α} (hkept : m.Kept)
    (h : Touches [] m t) : Leaves allowed m exit t := ⟨h.originals, Or.inl (hkept.touch h)⟩

theorem Follows.leaves {α β : Type} {exit : Exit String α} {exit' : Exit String β}
    (h : Follows m t) (hunchanged : m.Unchanged → t.Unchanged)
    (hleaves : Leaves allowed t exit u) (hexit : exit = .died → exit' = .died) :
    Leaves allowed m exit' u := by
  refine ⟨h.trans hleaves.1, hleaves.2.imp_right ?_⟩
  rintro ⟨hdied, hfile, hdies, hkeeps⟩
  exact ⟨hexit hdied, hfile, hdies, fun hm => hkeeps (hunchanged hm)⟩

theorem Touches.leaves {α β : Type} {exit : Exit String α} {exit' : Exit String β}
    (h : Touches [] m t) (hleaves : Leaves allowed t exit u)
    (hexit : exit = .died → exit' = .died) : Leaves allowed m exit' u :=
  h.originals.leaves h.unchanged hleaves hexit

theorem ensures_setAside {error : String} {error' : String} (hload : m.load = .error error')
    (hunchanged : m.Unchanged) (ids : List String) :
    Ensures allowed (setAside error) (fun exit t =>
      Leaves allowed m exit t ∧ Repairs allowed m ids t) m := by
  have hkept : m.Kept := Or.inr ⟨⟨error', hload⟩, hunchanged⟩
  have hrepairs : ∀ {s : Machine}, s.endpoints = m.endpoints → Repairs allowed m ids s := by
    intro s hs id endpoint hlookup _ _
    exact ⟨endpoint, by rw [hs, hlookup], hunchanged id endpoint hlookup⟩
  have htouched : ∀ {α : Type} (exit : Exit String α) {s : Machine}, Touches [] m s →
      s.endpoints = m.endpoints → Leaves allowed m exit s ∧ Repairs allowed m ids s :=
    fun exit s htouches hs => ⟨.of_touches hkept htouches, hrepairs hs⟩
  refine .bind (.update ?_)
  refine .handle ensures_changeFile ?_ ?_ ?_
  · rintro _ t rfl
    refine .pure ⟨⟨.of_eq rfl, Or.inl ?_⟩, hrepairs rfl⟩
    refine Or.inl ⟨[], rfl, List.nodup_nil, nofun, fun id endpoint hlookup h => ?_⟩
    exact absurd (hunchanged id endpoint hlookup) h
  · rintro fault t ⟨rfl, -⟩
    refine .update ?_
    exact htouched _ ((touches_eprintln m _).trans (touches_eprintln _ _)) rfl
  · rintro t ⟨rfl, -⟩
    exact htouched _ (touches_eprintln m _) rfl

/-- A restoring of all saved endpoints. -/
theorem ensures_restoreSaved (hlegal : ∀ l fate, allowed l fate → Legal l fate) (hkept : m.Kept) :
    Ensures allowed restoreSaved (fun exit t => Leaves allowed m exit t ∧
      ∀ id endpoint, m.endpoints.lookup id = some endpoint →
        Smooth allowed m id → ∃ endpoint', t.endpoints.lookup id = some endpoint' ∧
          endpoint'.formats = endpoint'.original) m := by
  refine .bind (.get ?_)
  have hkept' := hkept
  rcases hkept with ⟨entries, hload, hcovers⟩ | ⟨⟨error, hload⟩, hunchanged⟩
  · -- Every endpoint is as it was at first or has an entry.
    have hcase : ∀ id endpoint, m.endpoints.lookup id = some endpoint →
        endpoint.formats = endpoint.original ∨ id ∈ entries.map (·.deviceId) := by
      intro id endpoint hlookup
      by_cases hsame : endpoint.formats = endpoint.original
      · exact Or.inl hsame
      · obtain ⟨entry, hentry, rfl⟩ := hcovers.changed id endpoint hlookup hsame
        exact Or.inr (List.mem_map_of_mem hentry)
    have hcall : ∀ {l : Label} {n : ℕ} {s : Machine}, allowed l (.fails n) ∨ allowed l (.dies n) →
        ∀ id endpoint, m.endpoints.lookup id = some endpoint →
          Smooth allowed m id → ∃ endpoint', s.endpoints.lookup id = some endpoint' ∧
            endpoint'.formats = endpoint'.original := by
      intro l n s hrough id endpoint _ hsmooth
      rcases hrough with hfails | hdies
      · exact (hsmooth.not_fails hfails).elim
      · exact (hsmooth.not_dies hdies).elim
    simp only [andThen, hload]
    cases entries with
    | nil =>
      refine .pure ⟨.of_touches hkept' (.refl [] m), fun id endpoint hlookup _ => ?_⟩
      have hsame := (hcase id endpoint hlookup).resolve_right List.not_mem_nil
      exact ⟨endpoint, hlookup, hsame⟩
    | cons first rest =>
      refine .seq ensures_ask ?_ ?_ ?_
      · rintro _ t ⟨htouches, -⟩
        refine .seq ensures_ask ?_ ?_ ?_
        · rintro _ u ⟨htouches', -⟩
          have hu := htouches.trans htouches'
          have hcovered := hcovers.touch hu fun id hid => absurd hid List.not_mem_nil
          have hparts : u.Covers ((first :: rest) ++ []) := by
            rw [List.append_nil]
            exact hcovered
          have hlast : ∀ {s : Machine}, Repairs allowed u ((first :: rest).map (·.deviceId)) s →
              ∀ id endpoint, m.endpoints.lookup id = some endpoint →
                Smooth allowed m id →
                ∃ endpoint', s.endpoints.lookup id = some endpoint' ∧
                  endpoint'.formats = endpoint'.original := by
            intro s hs id endpoint hlookup hsmooth
            have hlookup' : u.endpoints.lookup id = some endpoint :=
              (hu.others id List.not_mem_nil).trans hlookup
            exact hs id endpoint hlookup' (hu.smooth hsmooth) (hcase id endpoint hlookup)
          refine .seq (ensures_restorePresent hlegal (hu.load.trans hload) hcovered hparts
            fun original horiginal => ⟨original, horiginal, rfl⟩) ?_ ?_ ?_
          · rintro pending v ⟨hleaves, hrepairs, -⟩
            exact .pure ⟨hu.leaves hleaves (fun h => by cases h), hlast hrepairs⟩
          · rintro error v ⟨hleaves, hrepairs, -⟩
            exact ⟨hu.leaves hleaves (fun h => by cases h), hlast hrepairs⟩
          · rintro v ⟨hleaves, hrepairs, -⟩
            exact ⟨hu.leaves hleaves (fun _ => rfl), hlast hrepairs⟩
        · rintro error u ⟨htouches', hfailed⟩
          refine ⟨.of_touches hkept' (htouches.trans htouches'), ?_⟩
          rcases hfailed with hrefused | ⟨n, hfails⟩
          · cases hrefused
          · exact hcall (Or.inl hfails)
        · rintro u ⟨htouches', n, hdies⟩
          exact ⟨.of_touches hkept' (htouches.trans htouches'), hcall (Or.inr hdies)⟩
      · rintro error t ⟨htouches, hfailed⟩
        refine ⟨.of_touches hkept' htouches, ?_⟩
        rcases hfailed with hrefused | ⟨n, hfails⟩
        · cases hrefused
        · exact hcall (Or.inl hfails)
      · rintro t ⟨htouches, n, hdies⟩
        exact ⟨.of_touches hkept' htouches, hcall (Or.inr hdies)⟩
  · simp only [andThen, hload]
    refine (ensures_setAside hload hunchanged []).mono fun exit t h => ⟨h.1, ?_⟩
    intro id endpoint hlookup hsmooth
    exact h.2 id endpoint hlookup hsmooth (Or.inl (hunchanged id endpoint hlookup))

/-! ### Forcing -/

/-- The entries of one endpoint and those of the others. -/
theorem Machine.Covers.split (h : m.Covers entries) (id : String) :
    m.Covers (entries.filter (fun original => original.deviceId ≠ id) ++
      entries.filter fun original => original.deviceId = id) := by
  have hperm : (entries.filter (fun original => original.deviceId ≠ id) ++
      entries.filter fun original => original.deviceId = id).Perm entries := by
    have hparts := List.filter_append_perm (fun original => decide (original.deviceId ≠ id)) entries
    simpa using hparts
  refine ⟨(hperm.map (·.deviceId)).nodup_iff.mpr h.nodup, fun entry hentry =>
    h.original entry (hperm.mem_iff.mp hentry), fun other endpoint hlookup hchanged => ?_⟩
  obtain ⟨entry, hentry, rfl⟩ := h.changed other endpoint hlookup hchanged
  exact ⟨entry, hperm.mem_iff.mpr hentry, rfl⟩

/-- An endpoint has one entry at most. -/
theorem filter_eq_of_nodup (id : String) (h : (entries.map (·.deviceId)).Nodup)
    {rest : List OriginalFormats}
    (hfilter : (entries.filter fun original => original.deviceId = id) = original :: rest) :
    rest = [] ∧ original.deviceId = id := by
  have hsublist : ((original :: rest).map (·.deviceId)).Sublist (entries.map (·.deviceId)) := by
    rw [← hfilter]
    exact List.filter_sublist.map _
  have hsame : ∀ other ∈ original :: rest, other.deviceId = id := by
    intro other hother
    rw [← hfilter] at hother
    exact of_decide_eq_true (List.mem_filter.mp hother).2
  have hhead := hsame original List.mem_cons_self
  refine ⟨?_, hhead⟩
  cases rest with
  | nil => rfl
  | cons second rest =>
    have hnodup := h.sublist hsublist
    have hsecond := hsame second (List.mem_cons_of_mem _ List.mem_cons_self)
    have hne := (List.nodup_cons.mp hnodup).1
    exact absurd (List.mem_map.mpr ⟨second, List.mem_cons_self, hsecond.trans hhead.symm⟩) hne

/-- The saved original formats, or those that an unchanged endpoint has. -/
theorem ensures_originalOf {current : List OriginalFormats}
    (hload : m.load = .ok (pending ++ current)) (hcovers : m.Covers (pending ++ current))
    (hpending : ∀ original ∈ pending, original.deviceId ≠ id)
    (hcurrent : ∀ original rest, current = original :: rest →
      rest = [] ∧ original.deviceId = id) :
    Ensures allowed (originalOf id current) (fun exit t => Touches [] m t ∧
      ∀ original, exit = .returned original → original.deviceId = id ∧
        t.Covers (pending ++ [original])) m := by
  cases current with
  | cons original rest =>
    obtain ⟨rfl, hid⟩ := hcurrent original rest rfl
    refine .pure ⟨.refl [] m, fun other hother => ?_⟩
    obtain rfl := Exit.returned.inj hother
    exact ⟨hid, hcovers⟩
  | nil =>
    rw [List.append_nil] at hcovers
    refine .seq ensures_deviceFormats ?_ ?_ ?_
    · rintro formats t ⟨htouches, endpoint, hlookup, rfl⟩
      refine .pure ⟨htouches, fun original horiginal => ?_⟩
      obtain rfl := Exit.returned.inj horiginal
      have hcovered : t.Covers pending :=
        hcovers.touch htouches fun _ hid => absurd hid List.not_mem_nil
      have hlookup' : t.endpoints.lookup id = some endpoint :=
        (htouches.others id List.not_mem_nil).trans hlookup
      -- No entry is of it, so it is unchanged.
      have hunchanged : endpoint.formats = endpoint.original := by
        by_contra hchanged
        obtain ⟨entry, hentry, hsame⟩ := hcovered.changed id endpoint hlookup' hchanged
        exact hpending entry hentry hsame
      refine ⟨rfl, ?_, ?_, ?_⟩
      · rw [List.map_append, List.nodup_append]
        refine ⟨hcovered.nodup, List.nodup_singleton _, ?_⟩
        intro first hfirst second hsecond
        obtain ⟨entry, hentry, rfl⟩ := List.mem_map.mp hfirst
        rw [List.map_cons, List.map_nil, List.mem_singleton] at hsecond
        rw [hsecond]
        exact hpending entry hentry
      · intro entry hentry
        rcases List.mem_append.mp hentry with hold | hnew
        · exact hcovered.original entry hold
        · rw [List.mem_singleton] at hnew
          subst hnew
          exact ⟨endpoint, hlookup', hunchanged⟩
      · intro other endpoint' hother hchanged
        obtain ⟨entry, hentry, hsame⟩ := hcovered.changed other endpoint' hother hchanged
        exact ⟨entry, List.mem_append_left _ hentry, hsame⟩
    · rintro error t ⟨htouches, -⟩
      exact ⟨htouches, fun _ hexit => by cases hexit⟩
    · rintro t ⟨htouches, -⟩
      exact ⟨htouches, fun _ hexit => by cases hexit⟩

/-- The endpoint is changed once its entry is saved. -/
theorem ensures_change {rateHz : UInt32} (hload : m.load = .ok entries) (hcovers : m.Covers entries)
    (hentry : original ∈ entries) :
    Ensures allowed (do
      let supported ← deviceSupports original.deviceId
        (original.formats.device.withSampleRate rateHz)
      setDeviceFormatsIfChanged original.deviceId (target original rateHz supported))
      (Leaves allowed m) m := by
  have hkept : m.Kept := .of_covers hload hcovers
  have hdone : ∀ {α : Type} {exit : Exit String α} {s : Machine},
      Touches [original.deviceId] m s → Leaves allowed m exit s := by
    intro α exit s hs
    refine ⟨hs.originals, Or.inl (.of_covers (hs.load.trans hload) (hcovers.touch hs ?_))⟩
    intro id hid
    rw [List.mem_singleton] at hid
    exact ⟨original, hentry, hid.symm⟩
  refine .seq ensures_ask ?_ ?_ ?_
  · rintro supported t ⟨htouches, -⟩
    have ht : Touches [original.deviceId] m t := htouches.mono (List.nil_subset _)
    obtain ⟨endpoint, hlookup, -⟩ := hcovers.original original hentry
    obtain ⟨endpoint', hlookup', -⟩ := ht.originals _ endpoint hlookup
    exact (ensures_setDeviceFormatsIfChanged hlookup').mono fun exit u hu => hdone (ht.trans hu.1)
  · rintro error t ⟨htouches, -⟩
    exact .of_touches hkept htouches
  · rintro t ⟨htouches, -⟩
    exact .of_touches hkept htouches

theorem ensures_force (hlegal : ∀ l fate, allowed l fate → Legal l fate) (hkept : m.Kept)
    (rateHz : UInt32) : Ensures allowed (force rateHz) (Leaves allowed m) m := by
  refine .seq ensures_ask ?_ (fun _ _ h => .of_touches hkept h.1)
    fun _ h => .of_touches hkept h.1
  rintro id t ⟨htouches, -⟩
  have ht : t.Kept := hkept.touch htouches
  refine .bind (.get ?_)
  have ht' := ht
  rcases ht with ⟨entries, hload, hcovers⟩ | ⟨⟨error, hload⟩, hunchanged⟩
  · simp only [andThen, hload]
    have hparts := hcovers.split id
    refine .seq (ensures_restorePresent hlegal hload hcovers hparts fun original horiginal =>
      ⟨original, (List.mem_filter.mp horiginal).1, rfl⟩) ?_ ?_ ?_
    · rintro pending u ⟨hleaves, -, hunchanged, hreturned⟩
      obtain ⟨hsublist, hload', hcovers'⟩ := hreturned pending rfl
      have hu : Follows m u := htouches.originals.trans hleaves.1
      have hpending : ∀ original ∈ pending, original.deviceId ≠ id := fun original horiginal =>
        of_decide_eq_true (List.mem_filter.mp (hsublist.subset horiginal)).2
      have hkept' : u.Kept := .of_covers hload' hcovers'
      refine .seq (ensures_originalOf hload' hcovers' hpending fun original rest hfilter =>
        filter_eq_of_nodup id hcovers.nodup hfilter) ?_ ?_ ?_
      · rintro original v ⟨htouches', horiginal⟩
        obtain ⟨rfl, hcovered⟩ := horiginal original rfl
        have hv : v.Kept := hkept'.touch htouches'
        have hmv : Follows m v := hu.trans htouches'.originals
        have hkeeps : m.Unchanged → v.Unchanged := fun h =>
          htouches'.unchanged (hunchanged (htouches.unchanged h))
        refine .seq (ensures_store hlegal (pending ++ [original])) ?_ ?_ ?_
        · rintro _ w ⟨hendpoints, hstored⟩
          have hmw : Follows m w := hmv.trans (.of_eq hendpoints)
          refine (ensures_change hstored (hcovered.of_eq hendpoints)
            (List.mem_append_right _ List.mem_cons_self)).mono fun exit x hx => ?_
          exact hmw.leaves (fun h => (hkeeps h).of_eq hendpoints) hx id
        · rintro error w ⟨hendpoints, hfile, -⟩
          exact ⟨hmv.trans (.of_eq hendpoints), Or.inl (hv.of_eq hfile hendpoints)⟩
        · rintro w ⟨hendpoints, hfile⟩
          refine ⟨hmv.trans (.of_eq hendpoints), ?_⟩
          rcases hfile with ⟨hsame, -⟩ | ⟨hcut, hdies⟩
          · exact Or.inl (hv.of_eq hsame hendpoints)
          · exact Or.inr ⟨rfl, hcut, hdies, fun h => (hkeeps h).of_eq hendpoints⟩
      · rintro error v ⟨htouches', -⟩
        exact ⟨hu.trans htouches'.originals, Or.inl (hkept'.touch htouches')⟩
      · rintro v ⟨htouches', -⟩
        exact ⟨hu.trans htouches'.originals, Or.inl (hkept'.touch htouches')⟩
    · rintro error u ⟨hleaves, -⟩
      exact htouches.leaves hleaves fun h => by cases h
    · rintro u ⟨hleaves, -⟩
      exact htouches.leaves hleaves fun _ => rfl
  · simp only [andThen, hload]
    exact .fail ⟨htouches.originals, Or.inl ht'⟩

theorem ensures_setForcedRateHz (hlegal : ∀ l fate, allowed l fate → Legal l fate)
    (hkept : m.Kept) (rateHz : Option UInt32) :
    Ensures allowed (setForcedRateHz rateHz) (Leaves allowed m) m := by
  cases rateHz with
  | none => exact (ensures_restoreSaved hlegal hkept).mono fun _ _ h => h.1
  | some rateHz =>
    refine .seq ensures_ask ?_ (fun _ _ h => .of_touches hkept h.1)
      fun _ h => .of_touches hkept h.1
    rintro _ t ⟨htouches, -⟩
    refine .seq ensures_ask ?_ ?_ ?_
    · rintro _ u ⟨htouches', -⟩
      have hu := htouches.trans htouches'
      exact (ensures_force hlegal (hkept.touch hu) rateHz).mono fun exit v hv =>
        hu.leaves hv id
    · rintro error u ⟨htouches', -⟩
      exact .of_touches hkept (htouches.trans htouches')
    · rintro u ⟨htouches', -⟩
      exact .of_touches hkept (htouches.trans htouches')

/-- A start restores every endpoint that is there, when nothing goes wrong. -/
theorem ensures_start (hlegal : ∀ l fate, allowed l fate → Legal l fate) (hkept : m.Kept) :
    Ensures allowed start (fun exit t => Leaves allowed m exit t ∧
      ∀ id endpoint, m.endpoints.lookup id = some endpoint →
        Smooth allowed m id → ∃ endpoint', t.endpoints.lookup id = some endpoint' ∧
          endpoint'.formats = endpoint'.original) m := by
  refine .handleFailure (ensures_restoreSaved hlegal hkept) ?_ ?_ fun _ h => h
  · rintro _ t ⟨hleaves, hback⟩
    exact .pure ⟨⟨hleaves.1, hleaves.2.imp_right fun hcut => by cases hcut.1⟩, hback⟩
  · rintro error t ⟨hleaves, hback⟩
    have htold := touches_eprintln t
      s!"Adaptive could not restore a saved output format at start: {error}"
    refine .update ⟨⟨hleaves.1.trans htold.originals, ?_⟩, hback⟩
    rcases hleaves.2 with ht | hcut
    · exact Or.inl (ht.touch htold)
    · cases hcut.1

end Restoring

end Rules

/-! ### Runs -/

/-- The fates of the event's command. -/
def Event.fates : Event → Option (Label → ℕ → Fate)
  | .start fates | .setForcedRateHz _ fates => some fates
  | .kill => none

/-- A step in which writing a file fails only before it is changed. -/
structure Step (m : Machine) (e : Event) (m' : Machine) : Prop where
  perform : m.perform e = some m'
  legal : ∀ fates, e.fates = some fates → Allowed Legal fates

/-- The client is killed between the truncation and the writing of the file. -/
def CutsOff (fates : Label → ℕ → Fate) : Prop := ∃ n progress, fates .write n = .dies progress

/-- A step that kills the client between the truncation and the writing of the file only where
no endpoint is changed. -/
structure CalmStep (m : Machine) (e : Event) (m' : Machine) : Prop extends Step m e m' where
  uncut : ∀ fates, e.fates = some fates → CutsOff fates → m.Unchanged

/-- What a step does to the saved formats. -/
structure OriginalsKept (m : Machine) (e : Event) (m' : Machine) : Prop where
  /-- A changed endpoint has exactly one entry, with the formats that it had at first. -/
  saved : ∀ id endpoint, m'.endpoints.lookup id = some endpoint →
    endpoint.formats ≠ endpoint.original → ∃ entries, m'.load = .ok entries ∧
      (entries.filter fun entry => entry.deviceId = id) = [⟨id, endpoint.original⟩]
  /-- No entry holds formats that were forced. -/
  genuine : ∀ entries, m'.load = .ok entries → ∀ entry ∈ entries, ∃ endpoint,
    m'.endpoints.lookup entry.deviceId = some endpoint ∧ entry.formats = endpoint.original
  /-- An entry that leaves is of an endpoint that has its formats again. -/
  leaves : ∀ entries entry, m.load = .ok entries → entry ∈ entries →
    (∀ entries', m'.load = .ok entries' → entry ∉ entries') →
    ∃ endpoint, m'.endpoints.lookup entry.deviceId = some endpoint ∧
      endpoint.formats = entry.formats
  /-- A start without a failing call restores the endpoints that it finds active. -/
  restores : ∀ fates, e = .start fates → (∀ l n, fates l n = .done) →
    ∀ id endpoint, m.endpoints.lookup id = some endpoint →
      (∀ n, m.calls ≤ n → (m.surroundings n).isActive id = true ∧
        ∀ current formats, (m.surroundings n).takes id current formats = formats) →
      ∃ endpoint', m'.endpoints.lookup id = some endpoint' ∧
        endpoint'.formats = endpoint'.original

/-- Nothing is changed, and no file is there. -/
structure Init (m : Machine) : Prop where
  file : m.file = .absent
  isRunning : m.isRunning = false
  unchanged : m.Unchanged

theorem Init.kept {m : Machine} (h : Init m) : m.Kept := by
  refine Or.inl ⟨[], ?_, List.nodup_nil, nofun, fun id endpoint hlookup hchanged => ?_⟩
  · rw [Machine.load, h.file]
  · exact absurd (h.unchanged id endpoint hlookup) hchanged

section Runs

variable {m m' : Machine} {e : Event} {fates : Label → ℕ → Fate}

theorem runCommand_of_ensures {program : Act Unit} {allowed : Label → Fate → Prop}
    {Q : Exit String Unit → Machine → Prop} (P : Machine → Prop) (h : Ensures allowed program Q m)
    (hfates : Allowed allowed fates) (hdied : ∀ t, Q .died t → P t.kill)
    (hlives : ∀ exit t, exit ≠ .died → Q exit t → P t) :
    P (runCommand program fates m) := by
  obtain ⟨hpost, -⟩ := h fates hfates
  rw [runCommand]
  generalize program ⟨m, fates⟩ = result at hpost ⊢
  obtain ⟨exit, t, rest⟩ := result
  cases exit with
  | returned a => exact hlives (.returned a) t nofun hpost
  | failed error => exact hlives (.failed error) t nofun hpost
  | died => exact hdied t hpost

theorem kept_kill (h : m.Kept) : m.kill.Kept := h.of_eq rfl rfl

/-- The fates that are among those of a command. -/
def Among (fates : Label → ℕ → Fate) (l : Label) (fate : Fate) : Prop := ∃ n, fates l n = fate

theorem Among.legal (h : Allowed Legal fates) (l : Label) (fate : Fate)
    (hamong : Among fates l fate) : Legal l fate := by
  obtain ⟨n, rfl⟩ := hamong
  exact h l n

/-- Killed or not, a command leaves the entries kept, unless it was cut off. -/
theorem kept_of_leaves {program : Act Unit}
    (h : Ensures (Among fates) program (Leaves (Among fates) m) m)
    (hcalm : CutsOff fates → m.Unchanged) :
    Follows m (runCommand program fates m) ∧ (runCommand program fates m).Kept := by
  refine runCommand_of_ensures (fun t => Follows m t ∧ t.Kept) h (fun l n => ⟨n, rfl⟩) ?_ ?_
  · rintro t ⟨hfollows, hkept | ⟨-, hfile, ⟨progress, n, hdies⟩, hunchanged⟩⟩
    · exact ⟨hfollows, kept_kill hkept⟩
    · refine ⟨hfollows, Or.inr ⟨⟨"EOF while parsing a value", ?_⟩, ?_⟩⟩
      · rw [Machine.load, Machine.kill, hfile]
      · exact hunchanged (hcalm ⟨n, progress, hdies⟩)
  · rintro exit t hlives ⟨hfollows, hkept⟩
    exact ⟨hfollows, hkept.resolve_right fun hcut => hlives hcut.1⟩

theorem CalmStep.follows (h : CalmStep m e m') (hkept : m.Kept) : Follows m m' ∧ m'.Kept := by
  have hperform := h.perform
  cases e with
  | start fates =>
    simp only [Machine.perform] at hperform
    split_ifs at hperform
    cases hperform
    have hkept' : ({ m with isRunning := true } : Machine).Kept := hkept.of_eq rfl rfl
    have hstart := ensures_start (Among.legal (h.legal fates rfl)) hkept'
    exact kept_of_leaves (hstart.mono fun _ _ hl => hl.1) (h.uncut fates rfl)
  | setForcedRateHz rateHz fates =>
    simp only [Machine.perform] at hperform
    split_ifs at hperform
    cases hperform
    exact kept_of_leaves (ensures_setForcedRateHz (Among.legal (h.legal fates rfl)) hkept rateHz)
      (h.uncut fates rfl)
  | kill =>
    cases hperform
    exact ⟨.of_eq rfl, kept_kill hkept⟩

/-- A start in which every call succeeds. -/
theorem start_restores (hkept : m.Kept)
    (hstep : m.perform (.start fates) = some m') (hdone : ∀ l n, fates l n = .done) {id : String}
    (hlookup : m.endpoints.lookup id = some endpoint)
    (hsmooth : ∀ n, m.calls ≤ n → (m.surroundings n).isActive id = true ∧
      ∀ current formats, (m.surroundings n).takes id current formats = formats) :
    ∃ endpoint', m'.endpoints.lookup id = some endpoint' ∧
      endpoint'.formats = endpoint'.original := by
  simp only [Machine.perform] at hstep
  split_ifs at hstep
  cases hstep
  have hkept' : ({ m with isRunning := true } : Machine).Kept := hkept.of_eq rfl rfl
  have hlegal : ∀ (l : Label) (fate : Fate), fate = .done → Legal l fate := by
    rintro l fate rfl - progress hfails
    cases hfails
  have hstart := ensures_start hlegal hkept'
  refine runCommand_of_ensures (fun t => ∃ endpoint', t.endpoints.lookup id = some endpoint' ∧
    endpoint'.formats = endpoint'.original) hstart (fun l n => hdone l n) ?_ ?_
  · rintro t ⟨-, hback⟩
    exact hback id endpoint hlookup ⟨fun _ _ h => h, hsmooth⟩
  · rintro exit t - ⟨-, hback⟩
    exact hback id endpoint hlookup ⟨fun _ _ h => h, hsmooth⟩

/-- The one entry of an endpoint. -/
theorem filter_eq_singleton {entry : OriginalFormats} (hnodup : (entries.map (·.deviceId)).Nodup)
    (hentry : entry ∈ entries) :
    (entries.filter fun other => other.deviceId = entry.deviceId) = [entry] := by
  cases hfilter : entries.filter fun other => other.deviceId = entry.deviceId with
  | nil =>
    have hmem : entry ∈ entries.filter fun other => other.deviceId = entry.deviceId :=
      List.mem_filter.mpr ⟨hentry, decide_eq_true rfl⟩
    rw [hfilter] at hmem
    exact absurd hmem List.not_mem_nil
  | cons first rest =>
    obtain ⟨rfl, -⟩ := filter_eq_of_nodup entry.deviceId hnodup hfilter
    have hmem : entry ∈ [first] := by
      rw [← hfilter]
      exact List.mem_filter.mpr ⟨hentry, decide_eq_true rfl⟩
    rw [List.mem_singleton.mp hmem]

theorem CalmStep.originalsKept (h : CalmStep m e m') (hkept : m.Kept) : OriginalsKept m e m' := by
  obtain ⟨hfollows, hkept'⟩ := h.follows hkept
  have hback : ∀ id endpoint, m'.endpoints.lookup id = some endpoint →
      (∀ entries, m'.load = .ok entries → m'.Covers entries →
        ∀ entry ∈ entries, entry.deviceId ≠ id) →
      endpoint.formats = endpoint.original := by
    intro id endpoint hlookup hnone
    rcases hkept' with ⟨entries, hload, hcovers⟩ | ⟨-, hunchanged⟩
    · by_contra hchanged
      obtain ⟨entry, hentry, hid⟩ := hcovers.changed id endpoint hlookup hchanged
      exact hnone entries hload hcovers entry hentry hid
    · exact hunchanged id endpoint hlookup
  constructor
  · intro id endpoint hlookup hchanged
    rcases hkept' with ⟨entries, hload, hcovers⟩ | ⟨-, hunchanged⟩
    · obtain ⟨entry, hentry, rfl⟩ := hcovers.changed id endpoint hlookup hchanged
      obtain ⟨endpoint', hlookup', hformats⟩ := hcovers.original entry hentry
      rw [hlookup] at hlookup'
      cases hlookup'
      refine ⟨entries, hload, ?_⟩
      rw [filter_eq_singleton hcovers.nodup hentry, ← hformats]
    · exact absurd (hunchanged id endpoint hlookup) hchanged
  · intro entries hload entry hentry
    rcases hkept' with ⟨entries', hload', hcovers⟩ | ⟨⟨error, herror⟩, -⟩
    · cases hload.symm.trans hload'
      exact hcovers.original entry hentry
    · rw [hload] at herror
      cases herror
  · intro entries entry hload hentry hgone
    rcases hkept with ⟨entries', hload', hcovers⟩ | ⟨⟨error, herror⟩, -⟩
    · cases hload.symm.trans hload'
      obtain ⟨endpoint, hlookup, hformats⟩ := hcovers.original entry hentry
      obtain ⟨endpoint', hlookup', hsame⟩ := hfollows _ endpoint hlookup
      refine ⟨endpoint', hlookup', ?_⟩
      have hunchanged : endpoint'.formats = endpoint'.original := by
        refine hback _ endpoint' hlookup' fun entries' hload'' hcovers' other hother hid => ?_
        obtain ⟨endpoint'', hlookup'', hformats'⟩ := hcovers'.original other hother
        rw [hid, hlookup'] at hlookup''
        cases hlookup''
        have heq : other = entry := by
          obtain ⟨deviceId, formats⟩ := other
          obtain ⟨deviceId', formats'⟩ := entry
          obtain rfl : deviceId = deviceId' := hid
          exact congrArg _ (hformats'.trans (hsame.trans hformats.symm))
        exact hgone entries' hload'' (heq ▸ hother)
      rw [hunchanged, hsame, hformats]
    · rw [hload] at herror
      cases herror
  · intro fates he hdone id endpoint hlookup hsmooth
    subst he
    exact start_restores hkept h.perform hdone hlookup hsmooth

end Runs

/-- Some run in which no kill cuts the file off leads here. -/
def ReachableCalmly (m : Machine) : Prop := Transition.Reachable Init CalmStep m

/-- Where no step that starts while an endpoint is changed kills the client between the
truncation and the writing of the file, no original format is lost. -/
theorem originals_kept {m m' : Machine} {e : Event} (h : ReachableCalmly m)
    (hstep : CalmStep m e m') : OriginalsKept m e m' := by
  have hkept : m.Kept := by
    refine Transition.Reachable.invariant ?_ ?_ h
    · intro s hinit
      exact Init.kept hinit
    · intro s event t hs hevent
      exact (hevent.follows hs).2
  exact hstep.originalsKept hkept

section Sample

/-- 24 bits in stereo at 48000 Hz. -/
def stereo : WaveFormat :=
  ⟨[1, 0, 2, 0, 128, 187, 0, 0, 0, 101, 4, 0, 6, 0, 24, 0, 0, 0], by decide⟩

/-- One endpoint, which is the default and takes every format. -/
def fresh : Machine where
  surroundings _ := ⟨some "dac", fun _ => true, fun _ _ => true, fun _ _ formats => formats⟩
  calls := 0
  endpoints := AList.insert "dac" ⟨⟨stereo, stereo⟩, ⟨stereo, stereo⟩⟩ ∅
  file := .absent
  isRunning := false
  stderr := []

def allDone : Label → ℕ → Fate := fun _ _ => .done

/-- The first write is killed. -/
def killedWriting : Label → ℕ → Fate := fun l n => if l = .write ∧ n = 0 then .dies 0 else .done

def started : Machine := runCommand start allDone { fresh with isRunning := true }

def forced : Machine := runCommand (setForcedRateHz (some 44100)) allDone started

def restarted : Machine := runCommand start allDone { forced.kill with isRunning := true }

def cutOff : Machine := runCommand (setForcedRateHz (some 96000)) killedWriting forced

def isChanged (m : Machine) : Bool :=
  (m.endpoints.lookup "dac").any fun endpoint => endpoint.formats ≠ endpoint.original

theorem fresh_init : Init fresh where
  file := rfl
  isRunning := rfl
  unchanged id endpoint hlookup := by
    have hmem := AList.mem_lookup_iff.mp hlookup
    rw [fresh, AList.entries_insert] at hmem
    simp only [AList.empty_entries, List.kerase_nil, List.mem_singleton] at hmem
    obtain ⟨rfl, hsame⟩ := Sigma.mk.inj hmem
    obtain rfl := eq_of_heq hsame
    rfl

theorem legal_allDone : Allowed Legal allDone := by
  rintro l n - progress hfails
  cases hfails

theorem legal_killedWriting : Allowed Legal killedWriting := by
  rintro l n - progress hfails
  rw [killedWriting] at hfails
  split_ifs at hfails

theorem calm_allDone : ¬CutsOff allDone := by
  rintro ⟨n, progress, hdies⟩
  cases hdies

theorem step_started : CalmStep fresh (.start allDone) started where
  perform := rfl
  legal _ h := Option.some.inj h ▸ legal_allDone
  uncut _ h := Option.some.inj h ▸ fun hcut => absurd hcut calm_allDone

/-- A running client takes the command. -/
theorem perform_running {m : Machine} (h : m.isRunning = true) (rateHz : Option UInt32)
    (fates : Label → ℕ → Fate) : m.perform (.setForcedRateHz rateHz fates) =
      some (runCommand (setForcedRateHz rateHz) fates m) := by
  rw [Machine.perform, if_pos h]

theorem step_forced : CalmStep started (.setForcedRateHz (some 44100) allDone) forced where
  perform := perform_running (by decide +kernel) _ _
  legal _ h := Option.some.inj h ▸ legal_allDone
  uncut _ h := Option.some.inj h ▸ fun hcut => absurd hcut calm_allDone

theorem step_killed : CalmStep forced .kill forced.kill where
  perform := rfl
  legal _ h := by cases h
  uncut _ h := by cases h

theorem step_restarted : CalmStep forced.kill (.start allDone) restarted where
  perform := rfl
  legal _ h := Option.some.inj h ▸ legal_allDone
  uncut _ h := Option.some.inj h ▸ fun hcut => absurd hcut calm_allDone

/-- A kill after the rate was forced is undone by the next start. -/
theorem forced_rate_is_undone : isChanged forced = true ∧ isChanged restarted = false ∧
    OriginalsKept forced.kill (.start allDone) restarted :=
  ⟨by decide +kernel, by decide +kernel, originals_kept
    ⟨fresh, _, fresh_init, .cons step_started (.cons step_forced (.cons step_killed (.nil _)))⟩
    step_restarted⟩

theorem cutOff_lost : isChanged cutOff = true ∧ cutOff.file = .truncated := by
  constructor <;> decide +kernel

/-- The kill between the truncation and the writing loses the original formats. -/
theorem cut_off_file_loses : ¬∀ m e m', Transition.Reachable Init Step m → Step m e m' →
    OriginalsKept m e m' := by
  intro h
  have hstep : Step forced (.setForcedRateHz (some 96000) killedWriting) cutOff :=
    { perform := perform_running (by decide +kernel) _ _
      legal := fun fates hfates => Option.some.inj hfates ▸ legal_killedWriting }
  have hreachable : Transition.Reachable Init Step forced :=
    ⟨fresh, _, fresh_init, .cons step_started.toStep (.cons step_forced.toStep (.nil _))⟩
  obtain ⟨hchanged, hcut⟩ := cutOff_lost
  rw [isChanged, Option.any_eq_true] at hchanged
  obtain ⟨endpoint, hlookup, hdiffers⟩ := hchanged
  obtain ⟨entries, hload, -⟩ :=
    (h _ _ _ hreachable hstep).saved "dac" endpoint hlookup (of_decide_eq_true hdiffers)
  rw [Machine.load, hcut] at hload
  cases hload

end Sample

end Harmony.PolicyConfig
