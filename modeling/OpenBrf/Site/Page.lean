import OpenBrf.Lang

/-!
# Site.Page — what a page of the website is (`schema.prisma`, `pages-write.service.ts`)
-/

namespace OpenBrf.Site

/-- `PageStatus` -/
inductive PageStatus where
  | DRAFT
  | MEMBERS_ONLY
  | PUBLIC
  deriving DecidableEq, Repr

/-- `BuiltInPage`: what stands on such a page is the product's. -/
inductive BuiltInPage where
  | NEWS
  | CALENDAR
  | BROKER_INFORMATION
  | REQUEST_ACCOUNT
  deriving DecidableEq, Repr

/-- `PageWriteReason`, as far as the writes here refuse for it. -/
inductive PageWriteReason where
  | notFound
  | invalidSlug
  | slugTaken
  | pageChanged
  | frontPage
  | frontPageNotPublic
  | builtIn
  | personalIdentityNumber
  | photoConsentRequired
  | imageNotFound
  | imageNotPublic
  deriving DecidableEq, Repr

def isPublished (status : PageStatus) : Bool := status ≠ .DRAFT

end OpenBrf.Site
