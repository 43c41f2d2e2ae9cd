import Mathlib.Logic.Basic

/- Who may see what in the full-stack application: permissions, the facts of a session, and
the requirement that each kind of dashboard widget carries. -/
namespace DddCqrsEs.FullstackApp

structure PermissionId where
  asStr : String
  deriving DecidableEq

namespace PermissionId

def auditView : PermissionId := ⟨"audit.view"⟩
def dashboardView : PermissionId := ⟨"dashboard.view"⟩
def queryView : PermissionId := ⟨"query.view"⟩

end PermissionId

inductive AssuranceLevel where
  | none
  | aal1
  | aal2
  | aal3
  deriving DecidableEq

namespace AssuranceLevel

def rank : AssuranceLevel → Nat
  | none => 0
  | aal1 => 1
  | aal2 => 2
  | aal3 => 3

def satisfies (level minimum : AssuranceLevel) : Bool := minimum.rank ≤ level.rank

end AssuranceLevel

structure PermissionSet where
  inner : List String

namespace PermissionSet

def contains (permissions : PermissionSet) (id : PermissionId) : Bool :=
  permissions.inner.contains id.asStr

def containsAny (permissions : PermissionSet) (ids : List PermissionId) : Bool :=
  ids.any permissions.contains

def containsAll (permissions : PermissionSet) (ids : List PermissionId) : Bool :=
  ids.all permissions.contains

def hasSystemPrefix (permissions : PermissionSet) : Bool :=
  permissions.inner.any fun permission =>
    "system.".isPrefixOf permission || "auth:".isPrefixOf permission ||
      "authz:".isPrefixOf permission

end PermissionSet

structure AccessContext where
  authenticated : Bool
  permissions : PermissionSet
  assurance : AssuranceLevel
  systemAdministrator : Bool

inductive PermissionMode where
  | all
  | any
  deriving DecidableEq

inductive AccessRequirement where
  | authenticated
  | allPermissions (ids : List PermissionId)
  | anyPermission (ids : List PermissionId)
  | withAssurance (permissions : List PermissionId) (mode : PermissionMode)
      (minAssurance : AssuranceLevel)
  | systemNavigator

def systemAdminAal2 (ctx : AccessContext) : Bool :=
  ctx.systemAdministrator && ctx.assurance.satisfies .aal2

def AccessRequirement.isSatisfiedBy (ctx : AccessContext) : AccessRequirement → Bool
  | authenticated => ctx.authenticated
  | allPermissions ids => ctx.authenticated && ctx.permissions.containsAll ids
  | anyPermission ids =>
    ctx.authenticated && (ids.isEmpty || ctx.permissions.containsAny ids)
  | withAssurance permissions mode minAssurance =>
    if !ctx.authenticated || !ctx.assurance.satisfies minAssurance then false
    else
      match mode with
      | .all => ctx.permissions.containsAll permissions
      | .any => permissions.isEmpty || ctx.permissions.containsAny permissions
  | systemNavigator =>
    ctx.authenticated && (systemAdminAal2 ctx || ctx.permissions.hasSystemPrefix)

inductive DashboardWidgetKind where
  | metricSession
  | metricDevices
  | metricOrgs
  | metricSecurity
  | activity
  | notifications
  | sessions
  | organizations
  | securityPosture
  | notes
  | checklist
  | httpPanel
  | boundMetric
  | boundList
  | boundTable
  deriving DecidableEq

/-- Default width on a 12-column board. -/
def DashboardWidgetKind.defaultSpan : DashboardWidgetKind → UInt8
  | metricSession | metricDevices | metricOrgs | metricSecurity | boundMetric => 3
  | activity | notifications | sessions | organizations | securityPosture | notes | checklist
  | httpPanel | boundList | boundTable => 6

def widgetViewRequirement : DashboardWidgetKind → AccessRequirement
  | .activity => .allPermissions [.auditView]
  | .httpPanel | .boundMetric | .boundList | .boundTable => .allPermissions [.queryView]
  | _ => .allPermissions [.dashboardView]

end DddCqrsEs.FullstackApp
