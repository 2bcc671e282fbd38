import OpenBrf.Retention.PurgeDate
import OpenBrf.Txn.Rows

/-!
# Feed.Moderation — the board's moderation of the feed (`post-report.service.ts`,
`post-report-access.ts`, `feed-purge.service.ts`, the edits of `feed.service.ts` and
`post-comment.service.ts`)

A resident reports a post or a comment, the board strikes it through or leaves it standing, its
author edits it, and the purge erases what a person wrote.  The two tables of earlier versions are
one list here.  What the register answers about a caller, and whether a person's data is withheld
from the purge, is asked of code of its own.  Likes, read records, pictures, pins and places in
groups are left out.
-/

namespace OpenBrf.Feed

open Txn
open Retention (Instant RangeError)

inductive AudienceKind where
  | ALL
  | BOARD
  | GROUP
  | ADMIN
  deriving DecidableEq, Repr

structure Audience where
  id : String
  kind : AudienceKind
  deriving DecidableEq, Repr

/-- What a report is about: one post, or one comment. -/
inductive ReportSubject where
  | post (id : String)
  | comment (id : String)
  deriving DecidableEq, Repr

structure Post where
  id : String
  audience : Audience
  authorPersonId : Option String
  byBoard : Bool
  body : Option String
  createdAt : Int
  editedAt : Option Int
  struckAt : Option Int
  struckByPersonId : Option String
  erasedAt : Option Int
  deriving DecidableEq, Repr

structure PostComment where
  id : String
  postId : String
  authorPersonId : String
  body : String
  createdAt : Int
  editedAt : Option Int
  struckAt : Option Int
  struckByPersonId : Option String
  deriving DecidableEq, Repr

/-- An earlier version of a post or a comment. -/
structure Revision where
  subject : ReportSubject
  body : String
  writtenAt : Int
  replacedAt : Int
  deriving DecidableEq, Repr

structure PostReport where
  id : String
  subject : ReportSubject
  reporterPersonId : String
  note : Option String
  createdAt : Int
  resolvedAt : Option Int
  resolvedByPersonId : Option String
  upheld : Option Bool
  deriving DecidableEq, Repr

/-- `OPEN_REPORT` -/
def PostReport.isOpen (report : PostReport) : Bool := report.resolvedAt.isNone

/-- An entry of the audit log. -/
inductive FeedEntry where
  /-- `CHAT_MESSAGE_STRUCK` -/
  | struck (actorPersonId : String) (targetPersonId : Option String) (target : ReportSubject)
      (audienceId : String)
  /-- `SERVICE_DATA_PURGED` -/
  | purged (targetPersonId : String) (posts comments commentsKeptUnderErasedPosts reports : ℕ)
  deriving DecidableEq, Repr

structure FeedStore where
  posts : List Post := []
  comments : List PostComment := []
  revisions : List Revision := []
  reports : List PostReport := []
  /-- The identifiers reports have had. -/
  issued : List String := []
  /-- The newest entry first. -/
  log : List FeedEntry := []
  deriving DecidableEq

/-- Advisory keys, rows, and keys of the indexes on reports. -/
inductive FeedLock where
  /-- `feed-person:…` -/
  | feedPerson (personId : String)
  /-- `post:…` and `comment:…` -/
  | subject (subject : ReportSubject)
  | legalHold (personId : String)
  | erasureEligibility (personId : String)
  /-- A post's row or a comment's. -/
  | row (subject : ReportSubject)
  | report (id : String)
  | reportId (id : String)
  | reportOf (subject : ReportSubject) (reporterPersonId : String)
  deriving DecidableEq, Repr

inductive FeedReason where
  | postNotFound
  | commentNotFound
  | reportNotFound
  | reportResolved
  | notReportable
  | alreadyReported
  | tooManyReports
  | postErased
  | personalIdentityNumber
  | notBoard
  | notStrikeable
  | notEditable
  | tooManyEdits
  deriving DecidableEq, Repr

/-- The part of what was sent that a refused value is in. -/
inductive FeedPart where
  | body
  | note
  deriving DecidableEq, Repr

structure FeedTextLocation where
  part : FeedPart
  offset : ℕ
  deriving DecidableEq, Repr

inductive FeedFailure where
  | feed (message : String) (reason : FeedReason) (found : List FeedTextLocation)
  | range (error : RangeError)
  /-- A query given a date that is not one. -/
  | invalidDate
  deriving DecidableEq, Repr

abbrev FeedTx (α : Type) := Prog FeedStore FeedLock String FeedFailure α

def feedError (message : String) (reason : FeedReason) : FeedFailure := .feed message reason []

def postNotFound : FeedFailure := feedError "There is no such post." .postNotFound

def commentNotFound : FeedFailure := feedError "There is no such comment." .commentNotFound

def postErased : FeedFailure := feedError "This post has been erased." .postErased

def reportNotFound : FeedFailure := feedError "There is no such report." .reportNotFound

def alreadyReported : FeedFailure :=
  feedError "This has already been reported by this account." .alreadyReported

def alreadyStruck : FeedFailure :=
  feedError "The board has already struck this through." .reportResolved

def notStrikeable : FeedFailure := feedError
  "The board strikes through without a report only a resident's post or a comment in Alla."
  .notStrikeable

/-- Who calls, and what the register answers about them. -/
structure FeedReader where
  personId : String
  /-- The post is shown by now, in an audience this person is in. -/
  mayRead : Post → Bool
  /-- `chat:moderate` and a board seat today. -/
  answersReports : Bool

/-! ### Rows -/

def findPost (s : FeedStore) (id : String) : Option Post := s.posts.find? fun post => post.id = id

def findComment (s : FeedStore) (id : String) : Option PostComment :=
  s.comments.find? fun comment => comment.id = id

def findReport (s : FeedStore) (id : String) : Option PostReport :=
  s.reports.find? fun report => report.id = id

def FeedStore.record (s : FeedStore) (entry : FeedEntry) : FeedStore :=
  { s with log := entry :: s.log }

/-- Writes over the posts with some identifiers. -/
def FeedStore.writePosts (s : FeedStore) (ids : List String) (f : Post → Post) : FeedStore :=
  { s with posts := s.posts.map fun post => if post.id ∈ ids then f post else post }

def FeedStore.writeComments (s : FeedStore) (ids : List String) (f : PostComment → PostComment) :
    FeedStore :=
  { s with comments := s.comments.map fun comment =>
      if comment.id ∈ ids then f comment else comment }

/-- The report, answered. -/
def PostReport.answered (report : PostReport) (resolvedAt : Int) (resolvedByPersonId : String)
    (upheld : Bool) : PostReport :=
  { report with
    resolvedAt := some resolvedAt
    resolvedByPersonId := some resolvedByPersonId
    upheld := some upheld }

/-- Answers the reports with some identifiers. -/
def FeedStore.answer (s : FeedStore) (ids : List String) (now : Int) (actorPersonId : String)
    (upheld : Bool) : FeedStore :=
  { s with reports := s.reports.map fun report =>
      if report.id ∈ ids then report.answered now actorPersonId upheld else report }

def FeedStore.deleteReports (s : FeedStore) (ids : List String) : FeedStore :=
  { s with reports := s.reports.filter fun report => report.id ∉ ids }

/-- Takes what hangs on some posts or comments by cascade. -/
def FeedStore.cascade (s : FeedStore) (subjects : List ReportSubject) : FeedStore :=
  { s with
    revisions := s.revisions.filter fun revision => revision.subject ∉ subjects
    reports := s.reports.filter fun report => report.subject ∉ subjects }

def FeedStore.deletePosts (s : FeedStore) (ids : List String) : FeedStore :=
  { s.cascade (ids.map .post) with posts := s.posts.filter fun post => post.id ∉ ids }

def FeedStore.deleteComments (s : FeedStore) (ids : List String) : FeedStore :=
  { s.cascade (ids.map .comment) with
    comments := s.comments.filter fun comment => comment.id ∉ ids }

/-- A post's row under a share lock. -/
def readPostForShare (postId : String) : FeedTx (Option Post) :=
  readLocked (.row (.post postId)) .shared (findPost · postId)

/-- A comment's row under a lock that makes a delete wait. -/
def readCommentLocked (commentId : String) : FeedTx (Option PostComment) :=
  readLocked (.row (.comment commentId)) .exclusive (findComment · commentId)

/-- Refuses a post the purge has erased, read again under a share lock. -/
def refuseErasedPost (postId : String) : FeedTx Post := do
  let row ← readPostForShare postId
  match row with
  | none => fail postNotFound
  | some row =>
    refuseIf (row.erasedAt ≠ none) postErased
    pure row

/-! ### Who may report, and who may strike -/

/-- Alla and a group. -/
def isModerated (kind : AudienceKind) : Bool := kind = .ALL || kind = .GROUP

def strikesWithoutReport (kind : AudienceKind) : Bool := kind = .ALL

/-- A post or a comment, as far as its moderation turns on it. -/
structure ModeratedThing where
  audienceKind : AudienceKind
  authorPersonId : Option String
  newsItem : Bool
  struckAt : Option Int
  erasedAt : Option Int

def moderatedPost (post : Post) : ModeratedThing where
  audienceKind := post.audience.kind
  authorPersonId := post.authorPersonId
  newsItem := post.byBoard
  struckAt := post.struckAt
  erasedAt := post.erasedAt

def moderatedComment (comment : PostComment) (kind : AudienceKind) : ModeratedThing where
  audienceKind := kind
  authorPersonId := some comment.authorPersonId
  newsItem := false
  struckAt := comment.struckAt
  erasedAt := none

/-- Who is asking, as far as their moderation turns on it. -/
structure ModerationReader where
  personId : String
  moderates : Bool
  reported : Bool

def strikeableWithoutReport (thing : ModeratedThing) : Bool :=
  strikesWithoutReport thing.audienceKind && !thing.newsItem && thing.struckAt.isNone &&
    thing.erasedAt.isNone

structure Moderation where
  mayReport : Bool
  mayStrike : Bool
  deriving DecidableEq, Repr

/-- Whether a reader may report, and whether they may strike: never both. -/
def moderationOf (thing : ModeratedThing) (reader : ModerationReader) : Moderation :=
  let mayStrike := reader.moderates && strikeableWithoutReport thing
  { mayReport := !mayStrike && !reader.reported && isModerated thing.audienceKind &&
      !thing.newsItem && thing.struckAt.isNone && thing.erasedAt.isNone &&
      thing.authorPersonId ≠ some reader.personId
    mayStrike }

/-- The post this person may read. -/
def postFor (s : FeedStore) (postId : String) (reader : FeedReader) : Option Post :=
  (findPost s postId).filter reader.mayRead

/-- A comment with the post it is under, where this person may read that. -/
def commentFor (s : FeedStore) (commentId : String) (reader : FeedReader) :
    Option (PostComment × Post) := do
  let comment ← findComment s commentId
  let post ← postFor s comment.postId reader
  return (comment, post)

def refuseUnmoderated (post : Post) : FeedTx Unit :=
  refuseIf (isModerated post.audience.kind = false) <| feedError
    "Only a post or a comment in Alla or a group can be reported to the board." .notReportable

/-- Refuses a report the feed does not offer this reader. -/
def refuseUnreportable (thing : ModeratedThing) (reporter : FeedReader) : FeedTx Unit :=
  let moderates := strikesWithoutReport thing.audienceKind && reporter.answersReports
  refuseIf ((moderationOf thing ⟨reporter.personId, moderates, false⟩).mayReport = false) <|
    feedError
      ("Nobody reports their own words to the board, and the board strikes through in Alla " ++
        "rather than reporting to itself.") .notReportable

def requireReportablePost (postId : String) (reporter : FeedReader) : FeedTx Unit := do
  let s ← snapshot
  match postFor s postId reporter with
  | none => fail postNotFound
  | some post =>
    refuseIf (post.erasedAt ≠ none) postErased
    refuseUnmoderated post
    refuseIf (post.byBoard = true) <|
      feedError "A post written as Styrelsen is a news item and is not reported." .notReportable
    refuseIf (post.struckAt ≠ none) alreadyStruck
    refuseUnreportable (moderatedPost post) reporter

def requireReportableComment (commentId : String) (reporter : FeedReader) : FeedTx Unit := do
  let s ← snapshot
  match commentFor s commentId reporter with
  | none => fail commentNotFound
  | some (comment, post) =>
    refuseUnmoderated post
    refuseIf (comment.struckAt ≠ none) alreadyStruck
    refuseUnreportable (moderatedComment comment post.audience.kind) reporter

def requireReportable (subject : ReportSubject) (reporter : FeedReader) : FeedTx Unit :=
  match subject with
  | .post postId => requireReportablePost postId reporter
  | .comment commentId => requireReportableComment commentId reporter

/-! ### Reporting -/

def REPORTS_PER_WINDOW : ℕ := 10

def REPORT_WINDOW_MINUTES : Int := 60

/-- Refuses a person who has made their allowance of reports for the window. -/
def refuseTooManyReports (reporterPersonId : String) : FeedTx Unit := do
  let now ← readClock
  let since := now - REPORT_WINDOW_MINUTES * 60 * 1000
  let s ← snapshot
  refuseIf (REPORTS_PER_WINDOW ≤ (s.reports.filter fun report =>
      report.reporterPersonId = reporterPersonId && since ≤ report.createdAt).length) <|
    feedError "Too many reports in too short a time. Try again later." .tooManyReports

/-- Refuses text in which the scan finds a personal identity number. -/
def refusePersonalIdentityNumbers (scan : String → List ℕ) (text : String) (part : FeedPart) :
    FeedTx Unit :=
  refuseIf (scan text ≠ []) <| .feed
    "The text carries a personal identity number and cannot be written."
    .personalIdentityNumber ((scan text).map (⟨part, ·⟩))

def refuseNote (scan : String → List ℕ) (note : Option String) : FeedTx Unit :=
  match note with
  | none => pure ()
  | some note => refusePersonalIdentityNumbers scan note .note

/-- The lock the board answers under, and the strike read again under the row's own. -/
def lockReportable (subject : ReportSubject) : FeedTx Unit := do
  acquire (.subject subject) .exclusive
  match subject with
  | .post postId =>
    let current ← refuseErasedPost postId
    refuseIf (current.struckAt ≠ none) alreadyStruck
  | .comment commentId =>
    let current ← readCommentLocked commentId
    match current with
    | none => fail commentNotFound
    | some current => refuseIf (current.struckAt ≠ none) alreadyStruck

/-- Inserts a report; the index on who reported what refuses a second. -/
def createReport (subject : ReportSubject) (reporterPersonId : String) (note : Option String) :
    FeedTx String := do
  let now ← readClock
  let id ← fresh
  acquire (.reportId id) .exclusive
  let s ← snapshot
  refuseIf (id ∈ s.issued) alreadyReported
  acquire (.reportOf subject reporterPersonId) .exclusive
  let s ← snapshot
  refuseIf (∃ report ∈ s.reports, report.subject = subject ∧
    report.reporterPersonId = reporterPersonId) alreadyReported
  let report : PostReport := ⟨id, subject, reporterPersonId, note, now, none, none, none⟩
  update fun s => { s with reports := report :: s.reports, issued := id :: s.issued }
  pure id

def reportTx (reporterPersonId : String) (subject : ReportSubject) (note : Option String) :
    FeedTx String := do
  acquire (.feedPerson reporterPersonId) .exclusive
  refuseTooManyReports reporterPersonId
  lockReportable subject
  createReport subject reporterPersonId note

def report (scan : String → List ℕ) (reporter : FeedReader) (subject : ReportSubject)
    (note : Option String) : FeedTx String := do
  requireReportable subject reporter
  refuseNote scan note
  let s ← snapshot
  refuseIf (∃ report ∈ s.reports, report.subject = subject ∧
    report.reporterPersonId = reporter.personId) alreadyReported
  refuseTooManyReports reporter.personId
  transaction (reportTx reporter.personId subject note)

/-! ### Answering -/

/-- What is struck, as the entry of the log names it. -/
structure StruckThing where
  subject : ReportSubject
  audienceId : String
  authorPersonId : Option String

def struckThing (s : FeedStore) (subject : ReportSubject) : Option StruckThing :=
  match subject with
  | .post postId =>
    (findPost s postId).map fun post => ⟨.post post.id, post.audience.id, post.authorPersonId⟩
  | .comment commentId => do
    let comment ← findComment s commentId
    let post ← findPost s comment.postId
    return ⟨.comment comment.id, post.audience.id, some comment.authorPersonId⟩

/-- The reported row before the report's: one that is gone or erased took the report with it. -/
def lockReported (subject : ReportSubject) : FeedTx Unit := do
  acquire (.subject subject) .exclusive
  match subject with
  | .post postId =>
    let row ← readPostForShare postId
    refuseIf (row.all (·.erasedAt.isSome) = true) reportNotFound
  | .comment commentId =>
    let row ← readCommentLocked commentId
    refuseIf (row = none) reportNotFound

/-- The open reports that meet a condition, as an update looks for them. -/
def openReports (p : PostReport → Bool) (s : FeedStore) : List String :=
  (s.reports.filter fun report => p report && report.isOpen).map (·.id)

/-- Takes the report, or refuses the board member who arrived second. -/
def claim (reportId actorPersonId : String) (upheld : Bool) : FeedTx StruckThing := do
  let s ← snapshot
  match (findReport s reportId).bind fun report => struckThing s report.subject with
  | none => fail reportNotFound
  | some claimed =>
    lockReported claimed.subject
    let now ← readClock
    let rows ← updateRows .report (openReports fun report => report.id = reportId)
      fun ids s => s.answer ids now actorPersonId upheld
    refuseIf (rows = []) <|
      feedError "The board has already answered this report." .reportResolved
    pure claimed

/-- Answers every open report of a post or a comment. -/
def closeReports (subject : ReportSubject) (now : Int) (actorPersonId : String) (upheld : Bool) :
    FeedTx (List String) :=
  updateRows .report (openReports fun report => report.subject = subject)
    fun ids s => s.answer ids now actorPersonId upheld

/-- Sets the strike where there is none. -/
def strikeRow (subject : ReportSubject) (now : Int) (actorPersonId : String) :
    FeedTx (List String) :=
  match subject with
  | .post postId => updateRows (fun id => .row (.post id))
      (fun s => ((findPost s postId).filter fun post =>
        post.struckAt.isNone && post.erasedAt.isNone).toList.map (·.id))
      fun ids s => s.writePosts ids fun post =>
        { post with struckAt := some now, struckByPersonId := some actorPersonId }
  | .comment commentId => updateRows (fun id => .row (.comment id))
      (fun s => ((findComment s commentId).filter (·.struckAt.isNone)).toList.map (·.id))
      fun ids s => s.writeComments ids fun comment =>
        { comment with struckAt := some now, struckByPersonId := some actorPersonId }

def strikeIn (thing : StruckThing) (actorPersonId : String) : FeedTx Bool := do
  let now ← readClock
  let rows ← strikeRow thing.subject now actorPersonId
  let _ ← closeReports thing.subject now actorPersonId true
  if rows = [] then pure false
  else do
    update (·.record (.struck actorPersonId thing.authorPersonId thing.subject thing.audienceId))
    pure true

/-- The report the board has just answered. -/
def answeredRow (reportId : String) : FeedTx PostReport := do
  let s ← snapshot
  match findReport s reportId with
  | none => fail reportNotFound
  | some row => pure row

def strikeTx (reportId actorPersonId : String) : FeedTx PostReport := do
  let claimed ← claim reportId actorPersonId true
  let _ ← strikeIn claimed actorPersonId
  answeredRow reportId

def strike (actor : FeedReader) (reportId : String) : FeedTx PostReport := do
  refuseIf (actor.answersReports = false) reportNotFound
  transaction (strikeTx reportId actor.personId)

def dismissTx (reportId actorPersonId : String) : FeedTx PostReport := do
  let claimed ← claim reportId actorPersonId false
  let now ← readClock
  let _ ← closeReports claimed.subject now actorPersonId false
  answeredRow reportId

def dismiss (actor : FeedReader) (reportId : String) : FeedTx PostReport := do
  refuseIf (actor.answersReports = false) reportNotFound
  transaction (dismissTx reportId actor.personId)

def requireBoard (actor : FeedReader) : FeedTx Unit :=
  refuseIf (actor.answersReports = false) <|
    feedError "Only somebody holding a board seat strikes a post through." .notBoard

def strikePostTx (thing : StruckThing) (postId actorPersonId : String) : FeedTx Bool := do
  acquire (.subject (.post postId)) .exclusive
  let _ ← refuseErasedPost postId
  strikeIn thing actorPersonId

/-- Strikes a resident's post in Alla through, without a report. -/
def strikePost (actor : FeedReader) (postId : String) : FeedTx Bool := do
  let s ← snapshot
  match postFor s postId actor with
  | none => fail postNotFound
  | some post =>
    requireBoard actor
    refuseIf (strikesWithoutReport post.audience.kind = false ∨ post.byBoard = true) notStrikeable
    refuseIf (post.erasedAt ≠ none) postErased
    transaction (strikePostTx ⟨.post post.id, post.audience.id, post.authorPersonId⟩ post.id
      actor.personId)

def strikeCommentTx (thing : StruckThing) (commentId actorPersonId : String) : FeedTx Bool := do
  acquire (.subject (.comment commentId)) .exclusive
  let row ← readCommentLocked commentId
  refuseIf (row = none) commentNotFound
  strikeIn thing actorPersonId

/-- Strikes a comment under a post in Alla through, without a report. -/
def strikeComment (actor : FeedReader) (commentId : String) : FeedTx Bool := do
  let s ← snapshot
  match commentFor s commentId actor with
  | none => fail commentNotFound
  | some (comment, post) =>
    requireBoard actor
    refuseIf (strikesWithoutReport post.audience.kind = false) notStrikeable
    transaction (strikeCommentTx
      ⟨.comment comment.id, post.audience.id, some comment.authorPersonId⟩ comment.id
      actor.personId)

/-! ### Editing -/

def MAX_REVISIONS : ℕ := 20

def refuseFullHistory (kept : ℕ) : FeedTx Unit :=
  refuseIf (MAX_REVISIONS ≤ kept) <|
    feedError "This has been edited as many times as it may be." .tooManyEdits

/-- Not one written as Styrelsen, and not a struck or an erased one. -/
def editable (row : Post) (personId : String) : Bool :=
  !row.byBoard && row.authorPersonId = some personId && row.struckAt.isNone &&
    row.erasedAt.isNone

/-- The earlier versions of a post or a comment. -/
def revisionsOf (s : FeedStore) (subject : ReportSubject) : List Revision :=
  s.revisions.filter fun revision => revision.subject = subject

/-- Keeps the text that is replaced, and gives a row its new one. -/
def keepRevision (subject : ReportSubject) (was : String) (writtenAt : Int)
    (write : Int → FeedStore → FeedStore) : FeedTx Unit := do
  let s ← snapshot
  refuseFullHistory (revisionsOf s subject).length
  let edited ← readClock
  update fun s => { s with revisions := ⟨subject, was, writtenAt, edited⟩ :: s.revisions }
  update (write edited)

def notEditable : FeedFailure :=
  feedError "Only its author edits a post, and not one the board struck." .notEditable

def editPostTx (personId postId body : String) : FeedTx Unit := do
  let row ← readLocked (.row (.post postId)) .exclusive (findPost · postId)
  match row with
  | none => fail postNotFound
  | some row =>
    refuseIf (row.erasedAt ≠ none) postErased
    refuseIf (editable row personId = false) notEditable
    match row.body with
    | none => fail notEditable
    | some was =>
      if was = body then pure ()
      else
        keepRevision (.post postId) was (row.editedAt.getD row.createdAt) fun edited s =>
          s.writePosts [postId] fun post =>
            { post with body := some body, editedAt := some edited }

/-- `FeedService.edit` -/
def editPost (scan : String → List ℕ) (reader : FeedReader) (postId body : String) :
    FeedTx Unit := do
  let s ← snapshot
  match postFor s postId reader with
  | none => fail postNotFound
  | some post =>
    refusePersonalIdentityNumbers scan body .body
    transaction (editPostTx reader.personId post.id body)

def editCommentTx (personId commentId body : String) : FeedTx Unit := do
  let row ← readLocked (.row (.comment commentId)) .exclusive (findComment · commentId)
  match row with
  | none => fail commentNotFound
  | some row =>
    refuseIf (row.authorPersonId ≠ personId ∨ row.struckAt ≠ none) <|
      feedError "Only its writer edits a comment, and not one the board struck." .notEditable
    if row.body = body then pure ()
    else
      keepRevision (.comment commentId) row.body (row.editedAt.getD row.createdAt)
        fun edited s => s.writeComments [commentId] fun comment =>
          { comment with body, editedAt := some edited }

/-- `PostCommentService.edit` -/
def editComment (scan : String → List ℕ) (reader : FeedReader) (commentId body : String) :
    FeedTx Unit := do
  let s ← snapshot
  match commentFor s commentId reader with
  | none => fail commentNotFound
  | some (comment, _) =>
    refusePersonalIdentityNumbers scan body .body
    transaction (editCommentTx reader.personId comment.id body)

/-! ### The purge -/

/-- What stands about a person where the purge asks, under the keys it holds: whether a hold or a
restriction withholds their data, and whether a granted erasure is in force. -/
structure PurgeGround where
  withheld : Bool
  onRequest : Bool

/-- The latest writing time whose purge date has arrived. -/
def feedPurgeCutoff (now : Instant) (retentionDays : Option ℚ) :
    Except RangeError (Option Instant) :=
  (Retention.checkedDays retentionDays).map fun days =>
    Retention.newDate (now.time - Retention.round days * Shared.MILLISECONDS_PER_DAY)

/-- A post as its erasure leaves it. -/
def Post.erased (post : Post) (now : Int) : Post :=
  { post with
    erasedAt := some now
    authorPersonId := none
    body := none
    editedAt := none
    struckAt := none
    struckByPersonId := none }

/-- The posts that are still there and that no comment stands under. -/
def unanswered (ids : List String) (s : FeedStore) : List String :=
  ids.filter fun id => (findPost s id).isSome && s.comments.all fun comment => comment.postId ≠ id

structure ErasedPosts where
  erased : ℕ
  kept : ℕ

/-- Erases posts: the rows first, then what hung on the text, then the rows nobody answered. -/
def erasePosts (postIds : List String) (now : Int) : FeedTx ErasedPosts := do
  if postIds = [] then pure ⟨0, 0⟩
  else do
    let erased ← updateRows (fun id => .row (.post id))
      (fun s => postIds.filter fun id => (findPost s id).isSome)
      fun ids s => s.writePosts ids (·.erased now)
    update fun s => { s with revisions := s.revisions.filter fun revision =>
      revision.subject ∉ postIds.map ReportSubject.post }
    let _ ← updateRows .report
      (fun s => (s.reports.filter fun report =>
        report.subject ∈ postIds.map ReportSubject.post).map (·.id))
      fun ids s => s.deleteReports ids
    let _ ← updateRows (fun id => .row (.post id)) (unanswered postIds)
      fun ids s => s.deletePosts ids
    let s ← snapshot
    pure ⟨erased.length, (s.comments.filter fun comment => comment.postId ∈ postIds).length⟩

/-- Erases the reports a person made. -/
def eraseTraces (personId : String) : FeedTx (List String) :=
  updateRows .report
    (fun s => (s.reports.filter fun report => report.reporterPersonId = personId).map (·.id))
    fun ids s => s.deleteReports ids

/-- What is erased of what a person wrote: what was written by then, and nothing of the board's. -/
def writtenBy (personId : String) (latest : Int) (post : Post) : Bool :=
  post.authorPersonId = some personId && !post.byBoard && post.createdAt ≤ latest

def purgeWritten (personId : String) (latest now : Int) (onRequest : Bool) : FeedTx Unit := do
  let comments ← updateRows (fun id => .row (.comment id))
    (fun s => (s.comments.filter fun comment =>
      comment.authorPersonId = personId && comment.createdAt ≤ latest).map (·.id))
    fun ids s => s.deleteComments ids
  let s ← snapshot
  let outcome ← erasePosts ((s.posts.filter (writtenBy personId latest)).map (·.id)) now
  let traces ← if onRequest then eraseTraces personId else pure []
  if outcome.erased + comments.length + traces.length = 0 then pure ()
  else update (·.record
    (.purged personId outcome.erased comments.length outcome.kept traces.length))

/-- The latest writing time that is erased: on a granted erasure everything there is by now. -/
def erasableUntil (ground : PurgeGround) (now : Instant) (cutoff : Option Instant) :
    Option Instant :=
  if ground.onRequest then some now else cutoff

def purgePersonTx (ground : PurgeGround) (personId : String) (now : Instant)
    (cutoff : Option Instant) : FeedTx Unit := do
  acquire (.legalHold personId) .exclusive
  acquire (.erasureEligibility personId) .exclusive
  if ground.withheld then pure ()
  else
    match erasableUntil ground now cutoff with
    | none => fail .invalidDate
    | some latest => purgeWritten personId latest.time now.time ground.onRequest

/-- Erases one person's expired posts and comments. -/
def purgePerson (ground : PurgeGround) (personId : String) (now : Instant)
    (retentionDays : Option ℚ) : FeedTx Unit :=
  match feedPurgeCutoff now retentionDays with
  | .error e => fail (.range e)
  | .ok cutoff => transaction (purgePersonTx ground personId now cutoff)

/-- Deletes the erased posts nothing stands under. -/
def purgeErasedPosts : FeedTx Unit :=
  transaction do
    let _ ← updateRows (fun id => .row (.post id))
      (fun s => unanswered ((s.posts.filter fun post => post.erasedAt.isSome).map (·.id)) s)
      fun ids s => s.deletePosts ids

end OpenBrf.Feed
