import Mathlib

/-! # The registry of actions

Which resources an action accepts and which role scopes may grant it. A permission is the name of an
action; a name that the registry does not know never authorizes anything. -/
namespace Proctor.Access

inductive ResourceType where
  | institution | academicUnit | programme | programmeLevel | academicPeriod | academicClass | user | exam
  | examSitting | submission | mailDelivery
  deriving DecidableEq, Repr

inductive Action where
  | institutionManage | roleManage | auditView | academicAuditView | userView | userManage
  | userProfilePictureManage | sessionView | sessionManage | desktopRegistrationRevoke | jobView
  | jobManage | mailView | mailManage | mailRekey | mfaRekey | examCreate | examCreateOverride
  | examView | examViewOverride | examManage | examManageOverride | examPublish
  | examPublishOverride | examSittingCreate | examSittingCreateOverride | examSittingView
  | examSittingViewOverride | examSittingManage | examSittingManageOverride
  | examSittingParticipate | examAttemptBrowserActivityView | submissionView
  | submissionViewOverride | submissionReview | submissionReviewOverride | submissionRelease
  | submissionReleaseOverride | examRecordsComplete | examRecordsCompleteOverride
  | examRecordsExport | examRecordsExportOverride | examRecordsHold | examRecordsHoldOverride
  | retentionHoldRelease | academicUnitView | academicUnitManage | academicUnitMembersView
  | academicUnitMembersManage | academicPeriodView | academicPeriodManage | programmeView
  | programmeManage | programmeLevelView | programmeLevelManage | classView | classManage
  | classMembersView | classMembersManage | academicProgressionManage | accessPolicyView
  | accessPolicyManage | desktopCompatibilityPolicyManage | retentionPolicyView
  | retentionPolicyManage | retentionCleanupManage | userMFAReset | invitationView
  | invitationCreate | invitationManage | onboardingBatchView | onboardingBatchManage
  | externalIdentityManage | roleView | roleBindingView | roleBindingManage
  /-- A name that is not registered. -/
  | unregistered (name : String)
  deriving DecidableEq, Repr

structure ActionDefinition where
  resourceType : ResourceType
  compatibleResourceTypes : List ResourceType := []
  inheritInstitutionScope : Bool := false
  inheritAcademicUnitScopes : Bool := false
  relationshipOnly : Bool := false
  personalAccessTokenForbidden : Bool := false
  systemAdministratorOnly : Bool := false
  deriving DecidableEq, Repr

def ActionDefinition.acceptsResource (d : ActionDefinition) (t : ResourceType) : Bool :=
  d.resourceType == t || d.compatibleResourceTypes.contains t

def definitionForAction : Action → Option ActionDefinition
  | .institutionManage | .auditView | .jobView | .jobManage | .mailView | .mailManage =>
    some { resourceType := .institution, inheritInstitutionScope := true }
  | .roleManage | .mailRekey | .mfaRekey | .accessPolicyView | .accessPolicyManage
  | .retentionPolicyView | .roleView =>
    some {
      resourceType := .institution, inheritInstitutionScope := true,
      personalAccessTokenForbidden := true }
  | .academicAuditView | .examCreate | .examCreateOverride | .academicUnitMembersView
  | .academicUnitMembersManage =>
    some {
      resourceType := .academicUnit, inheritInstitutionScope := true,
      inheritAcademicUnitScopes := true }
  | .userView =>
    some {
      resourceType := .user, inheritInstitutionScope := true,
      inheritAcademicUnitScopes := true }
  | .userManage | .userProfilePictureManage | .sessionView | .sessionManage =>
    some { resourceType := .user, inheritInstitutionScope := true }
  | .desktopRegistrationRevoke =>
    some { resourceType := .user, relationshipOnly := true, personalAccessTokenForbidden := true }
  | .examView | .examViewOverride | .examManage | .examManageOverride | .examPublish
  | .examPublishOverride | .examSittingCreate | .examSittingCreateOverride =>
    some {
      resourceType := .exam, inheritInstitutionScope := true,
      inheritAcademicUnitScopes := true }
  | .examSittingView | .examSittingViewOverride | .examSittingManage | .examSittingManageOverride
  | .examAttemptBrowserActivityView =>
    some {
      resourceType := .examSitting, inheritInstitutionScope := true,
      inheritAcademicUnitScopes := true }
  | .examSittingParticipate =>
    some { resourceType := .examSitting, relationshipOnly := true }
  | .submissionView | .submissionViewOverride | .submissionReview | .submissionReviewOverride
  | .submissionRelease | .submissionReleaseOverride =>
    some {
      resourceType := .submission, inheritInstitutionScope := true,
      inheritAcademicUnitScopes := true }
  | .examRecordsComplete | .examRecordsCompleteOverride | .examRecordsExport
  | .examRecordsExportOverride | .examRecordsHold | .examRecordsHoldOverride =>
    some {
      resourceType := .exam, compatibleResourceTypes := [.examSitting, .submission],
      inheritInstitutionScope := true, inheritAcademicUnitScopes := true,
      personalAccessTokenForbidden := true }
  | .retentionHoldRelease =>
    some {
      resourceType := .exam, compatibleResourceTypes := [.examSitting, .submission],
      inheritInstitutionScope := true, inheritAcademicUnitScopes := true,
      personalAccessTokenForbidden := true, systemAdministratorOnly := true }
  | .academicUnitView | .academicUnitManage =>
    some {
      resourceType := .academicUnit, compatibleResourceTypes := [.institution],
      inheritInstitutionScope := true, inheritAcademicUnitScopes := true }
  | .academicPeriodView | .academicPeriodManage =>
    some {
      resourceType := .academicPeriod, inheritInstitutionScope := true,
      inheritAcademicUnitScopes := true }
  | .programmeView | .programmeManage =>
    some {
      resourceType := .programme, compatibleResourceTypes := [.academicUnit],
      inheritInstitutionScope := true, inheritAcademicUnitScopes := true }
  | .programmeLevelView | .programmeLevelManage =>
    some {
      resourceType := .programmeLevel, compatibleResourceTypes := [.programme],
      inheritInstitutionScope := true, inheritAcademicUnitScopes := true }
  | .classView =>
    some {
      resourceType := .academicClass, compatibleResourceTypes := [.programmeLevel, .academicUnit],
      inheritInstitutionScope := true, inheritAcademicUnitScopes := true }
  | .classManage =>
    some {
      resourceType := .academicClass, compatibleResourceTypes := [.programmeLevel],
      inheritInstitutionScope := true, inheritAcademicUnitScopes := true }
  | .classMembersView | .classMembersManage | .academicProgressionManage =>
    some {
      resourceType := .academicClass, inheritInstitutionScope := true,
      inheritAcademicUnitScopes := true }
  | .desktopCompatibilityPolicyManage | .retentionPolicyManage | .retentionCleanupManage =>
    some {
      resourceType := .institution, inheritInstitutionScope := true,
      personalAccessTokenForbidden := true, systemAdministratorOnly := true }
  | .userMFAReset =>
    some {
      resourceType := .user, inheritInstitutionScope := true,
      personalAccessTokenForbidden := true, systemAdministratorOnly := true }
  | .invitationView | .invitationCreate | .invitationManage | .onboardingBatchView
  | .onboardingBatchManage =>
    some {
      resourceType := .institution, compatibleResourceTypes := [.academicUnit, .academicClass],
      inheritInstitutionScope := true, inheritAcademicUnitScopes := true }
  | .externalIdentityManage =>
    some {
      resourceType := .user, inheritInstitutionScope := true,
      personalAccessTokenForbidden := true }
  | .roleBindingView | .roleBindingManage =>
    some {
      resourceType := .institution, compatibleResourceTypes := [.academicUnit, .academicClass],
      inheritInstitutionScope := true, inheritAcademicUnitScopes := true,
      personalAccessTokenForbidden := true }
  | .unregistered _ => none

def isPersonalAccessTokenAction (action : Action) : Bool :=
  match definitionForAction action with
  | none => false
  | some d => !d.relationshipOnly && !d.systemAdministratorOnly && !d.personalAccessTokenForbidden

/-- The resources that belong to one Academic Unit and are listed by it. -/
def ResourceType.unitOwned : ResourceType → Bool
  | .academicUnit | .programme | .programmeLevel | .academicClass | .exam => true
  | .institution | .academicPeriod | .user | .examSitting | .submission | .mailDelivery => false

theorem bindings_decide_of_unitOwned {action : Action} {d : ActionDefinition} {t : ResourceType}
    (hDef : definitionForAction action = some d) (hAcc : d.acceptsResource t)
    (hOwned : t.unitOwned) :
    d.relationshipOnly = false ∧ action ≠ .userView ∧ action ≠ .userProfilePictureManage := by
  refine ⟨?_, ?_, ?_⟩
  · cases action <;> cases hDef <;> first
      | rfl
      | exfalso
        revert hAcc hOwned
        cases t <;> decide
  · rintro rfl
    cases hDef
    revert hAcc hOwned
    cases t <;> decide
  · rintro rfl
    cases hDef
    revert hAcc hOwned
    cases t <;> decide

end Proctor.Access
