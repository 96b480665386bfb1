/-
# The journals of Track Replacements

Each statement on a journal is one update that must match a row in the phase it expects.
-/

import Harmony.ManagedImport.Database

namespace Harmony.ManagedImport.Database

def updateReplacementJournal (journalId : String) (guard : ReplacementJournalRow → Bool)
    (f : ReplacementJournalRow → ReplacementJournalRow) : Tx Unit := do
  let db ← get
  Tx.requireOne ((db.replacementJournals.lookup journalId).any guard)
  modify fun db => { db with replacementJournals := db.replacementJournals.modify journalId f }

def markReplacementArtworkCreated (journalId : String) : Tx Unit :=
  updateReplacementJournal journalId (fun row => row.phase = .prepared) fun row =>
    { row with isArtworkCreated := true }

end Harmony.ManagedImport.Database
