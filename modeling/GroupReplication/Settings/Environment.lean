/-
Settings that the environment overrides. A variable whose text is no value of its setting
changes nothing.
-/
import GroupReplication.Settings

namespace GroupReplication

/-- A number of at most 64 bits in decimal digits, perhaps behind a plus sign. -/
def naturalOf? (text : String) : Option Nat :=
  let digits := match text.toList with
    | '+' :: cs => cs
    | cs => cs
  if digits.isEmpty || digits.any (!·.isDigit) then none
  else
    let n := digits.foldl (fun n c => 10 * n + (c.toNat - '0'.toNat)) 0
    if n < 2 ^ 64 then some n else none

namespace Settings

/-- The settings after the variables that `lookup` knows. -/
def override (lookup : String → Option String) (s : Settings) : Settings :=
  let text (name : String) (standard : String) : String := (lookup name).getD standard
  let natural (name : String) (standard : Nat) : Nat :=
    ((lookup name).bind naturalOf?).getD standard
  { s with
    group.name := text "GRIDSYNC_GROUP" s.group.name
    backlog := { s.backlog with
      maxWeight := natural "GRIDSYNC_BACKLOG_MAX_WEIGHT" s.backlog.maxWeight
      fullPolicy :=
        ((lookup "GRIDSYNC_BACKLOG_FULL_POLICY").bind FullPolicy.ofText?).getD
          s.backlog.fullPolicy
      maxBatchSize := natural "GRIDSYNC_BATCH_SIZE" s.backlog.maxBatchSize
      maxBatchAge := natural "GRIDSYNC_BATCH_AGE_MS" s.backlog.maxBatchAge }
    compaction.interval := natural "GRIDSYNC_COMPACTION_INTERVAL_MS" s.compaction.interval }

end Settings

end GroupReplication
