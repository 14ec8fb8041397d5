import AppBuilder.Sandbox.Policy

/-! The two ways in which a `SandboxSpec` is made: from a request, and from a stored lease. -/
namespace AppBuilder.Sandbox
open Agent

structure CreateBuildSandboxInput where
  workspaceId : ObjectId
  projectId : ObjectId
  branchId : ObjectId
  requestedByUserId : ObjectId
  runId : ObjectId
  sourceArtifact : SourceArtifact
  provider : String
  image : String
  attempt : ℕ
  resources : ResourceObject
  deriving DecidableEq

/-- `SandboxService.buildSpec`. -/
def buildSpec (config : SandboxConfig) (input : CreateBuildSandboxInput) : SandboxSpec where
  provisioningKey := "build:" ++ toString input.runId ++ ":" ++ toString input.attempt
  ownership := {
    workspaceId := input.workspaceId
    projectId := input.projectId
    branchId := input.branchId
    runId := .value input.runId
    snapshotId := .absent
    purpose := .build }
  runtime := { image := input.image, workingDirectory := "/workspace" }
  resources := input.resources
  networkPolicy := { defaultAction := .allow, allowedDomains := [], allowedCidrs := [] }
  lifecycle := {
    leaseSeconds := config.leaseSeconds
    autoStopSeconds := .absent
    autoDeleteSeconds := config.autoDeleteSeconds }
  labels := [
    ("managed-by", "open-v0"),
    ("workspaceId", toString input.workspaceId),
    ("projectId", toString input.projectId),
    ("branchId", toString input.branchId),
    ("purpose", "build")]

/-- What is stored of the request that `createBuildSandbox` makes. -/
def reservationRecord (config : SandboxConfig) (input : CreateBuildSandboxInput)
    (requestedAt reservedAt : Time) : SandboxReservationRecord :=
  let spec := buildSpec config input
  { workspaceId := input.workspaceId
    projectId := input.projectId
    branchId := input.branchId
    requestedByUserId := input.requestedByUserId
    runId := some input.runId
    snapshotId := none
    sourceArtifact := input.sourceArtifact
    purpose := .build
    provider := input.provider
    provisioningKey := spec.provisioningKey
    spec := {
      image := spec.runtime.image
      workingDirectory := spec.runtime.workingDirectory
      networkPolicy := spec.networkPolicy
      leaseSeconds := spec.lifecycle.leaseSeconds
      autoStopSeconds := spec.lifecycle.autoStopSeconds.get?
      autoDeleteSeconds := spec.lifecycle.autoDeleteSeconds }
    resourceProfile := spec.resources.toResourceProfile
    reservedAt := reservedAt
    expiresAt := requestedAt + spec.lifecycle.leaseSeconds * 1000 }

/-- `SandboxReconciler.ownership`. -/
def SandboxLease.ownership (lease : SandboxLease) : SandboxOwnership where
  workspaceId := lease.workspaceId
  projectId := lease.projectId
  branchId := lease.branchId
  runId := .explicit lease.runId
  snapshotId := .explicit lease.snapshotId
  purpose := lease.purpose

/-- `SandboxReconciler.spec`. -/
def SandboxLease.rebuiltSpec (lease : SandboxLease) : SandboxSpec where
  provisioningKey := lease.provisioningKey
  ownership := lease.ownership
  runtime := { image := lease.spec.image, workingDirectory := lease.spec.workingDirectory }
  resources := lease.resourceProfile.object
  networkPolicy := lease.spec.networkPolicy
  lifecycle := {
    leaseSeconds := lease.spec.leaseSeconds
    autoStopSeconds := .explicit lease.spec.autoStopSeconds
    autoDeleteSeconds := lease.spec.autoDeleteSeconds }
  labels := [
    ("managed-by", "open-v0"),
    ("workspaceId", toString lease.workspaceId),
    ("projectId", toString lease.projectId),
    ("branchId", toString lease.branchId),
    ("purpose", lease.purpose.name)]

end AppBuilder.Sandbox
