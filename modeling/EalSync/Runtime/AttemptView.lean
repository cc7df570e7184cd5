import EalSync.Runtime.Invariant

/-! The queue as the receipts see it: where each row of eal_crawl_attempts comes from, one case for
each statement that writes one. -/
namespace EalSync.Runtime

inductive AttemptEffect (now : Timestamp) (db : Database) :
    Op → Except Error Reply → AttemptRow → Prop where
  | kept (op : Op) (result : Except Error Reply) (a : AttemptRow) :
      a ∈ db.attempts → AttemptEffect now db op result a
  | leased (owner : Str) (leaseSeconds : Int) (leaseToken attemptId : Uuid) (locked : List Uuid)
      (candidate : JobRow) : candidate ∈ db.jobs →
      AttemptEffect now db (.lease owner leaseSeconds leaseToken attemptId locked)
        (.ok (.leased (some (leasedJob candidate leaseToken attemptId))))
        (newAttempt attemptId candidate.id leaseToken now)
  | completed (job : CrawlJob) (output : CrawlCommandOutput) (apiReceipt : Json) (b : AttemptRow) :
      b ∈ db.attempts → job.matchesAttempt b = true →
      AttemptEffect now db (.complete job output apiReceipt) (.ok .completed)
        ((completion output apiReceipt now).setAttempt b)
  | failed (job : CrawlJob) (errorCode : Str) (details : Json) (b : AttemptRow) :
      b ∈ db.attempts → job.matchesAttempt b = true →
      AttemptEffect now db (.fail job errorCode details) (.ok .failed)
        ((failure job errorCode details now).setAttempt b)
  | abandoned (result : Except Error Reply) (b : AttemptRow) :
      b ∈ db.attempts → b.status = .leased → AttemptEffect now db .reapExpired result (abandon now b)

theorem effect_attempt {db db' : Database} {now : Timestamp} {op : Op} {result : Except Error Reply}
    (did : Effect now db op result db') {a : AttemptRow} (member : a ∈ db'.attempts) :
    AttemptEffect now db op result a := by
  cases did with
  | refused => exact .kept _ _ a member
  | inserted => exact .kept _ _ a member
  | reseeded => exact .kept _ _ a member
  | idle => exact .kept _ _ a member
  | leased owner leaseSeconds token attemptId locked candidate found =>
    rcases List.mem_append.mp member with old | new
    · exact .kept _ _ a old
    · rw [List.mem_singleton.mp new]
      exact .leased _ _ _ _ _ candidate (candidate_leasable found).1
  | completed job output apiReceipt =>
    rcases Table.mem_update.mp member with ⟨b, old, matched, rfl⟩ | ⟨old, _⟩
    · exact .completed _ _ _ b old matched
    · exact .kept _ _ a old
  | failed job errorCode details =>
    rcases Table.mem_update.mp member with ⟨b, old, matched, rfl⟩ | ⟨old, _⟩
    · exact .failed _ _ _ b old matched
    · exact .kept _ _ a old
  | reaped =>
    rcases Table.mem_update.mp member with ⟨b, old, abandons, rfl⟩ | ⟨old, _⟩
    · exact .abandoned _ b old (Consistent.abandons_iff.mp abandons).1
    · exact .kept _ _ a old

end EalSync.Runtime
