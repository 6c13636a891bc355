-- SUMMARY: The data models of the workflow engine: node types, workflow definitions, execution records.
import CitraFlows.Lib.Deduplication
import CitraFlows.Python

/-!
# Data models

The pydantic models of `models.py` that the executor, the validator, the reaper and
the worker read. Fields that only the user interface or the audit trail reads are
left out.
-/

namespace CitraFlows

/-! ## Node types -/

inductive NodeType where
  | manualTrigger | scheduledTrigger | webhookTrigger | startNode
  | sqlSource | mongoSource | csvSource | apiSource | vectorSearch | mcpServer | vectorEmbed
  | reranker | s3Source | sftpSource | ftpFolderSource | sftpFolderSource | s3FolderSource
  | fileFetch
  | aiAgent
  | llmProcessor | customLlm | rulesEngine | dataTransform | classifier | extractor
  | summarizer | validator | deduplicator | mergeData | codeBlock | ocr | audioTranscribe
  | visionLlm
  | condition | switchRouter | loop | parallelSplit | mergeWait | humanApproval | delay
  | setVariable
  | sqlWriter | pdfExport | excelExport | csvExport | emailSender | bucketWriter | sftpWriter
  | webhookOutput | fileDownload | notify
  | workflowStateGet | workflowStateSet
  deriving DecidableEq

namespace NodeType

/-- The string value of the enum member. -/
def value : NodeType → String
  | .manualTrigger => "manual_trigger"
  | .scheduledTrigger => "scheduled_trigger"
  | .webhookTrigger => "webhook_trigger"
  | .startNode => "start_node"
  | .sqlSource => "sql_source"
  | .mongoSource => "mongo_source"
  | .csvSource => "csv_source"
  | .apiSource => "api_source"
  | .vectorSearch => "vector_search"
  | .mcpServer => "mcp_server"
  | .vectorEmbed => "vector_embed"
  | .reranker => "reranker"
  | .s3Source => "s3_source"
  | .sftpSource => "sftp_source"
  | .ftpFolderSource => "ftp_folder_source"
  | .sftpFolderSource => "sftp_folder_source"
  | .s3FolderSource => "s3_folder_source"
  | .fileFetch => "file_fetch"
  | .aiAgent => "ai_agent"
  | .llmProcessor => "llm_processor"
  | .customLlm => "custom_llm"
  | .rulesEngine => "rules_engine"
  | .dataTransform => "data_transform"
  | .classifier => "classifier"
  | .extractor => "extractor"
  | .summarizer => "summarizer"
  | .validator => "validator"
  | .deduplicator => "deduplicator"
  | .mergeData => "merge_data"
  | .codeBlock => "code_block"
  | .ocr => "ocr"
  | .audioTranscribe => "audio_transcribe"
  | .visionLlm => "vision_llm"
  | .condition => "condition"
  | .switchRouter => "switch_router"
  | .loop => "loop"
  | .parallelSplit => "parallel_split"
  | .mergeWait => "merge_wait"
  | .humanApproval => "human_approval"
  | .delay => "delay"
  | .setVariable => "set_variable"
  | .sqlWriter => "sql_writer"
  | .pdfExport => "pdf_export"
  | .excelExport => "excel_export"
  | .csvExport => "csv_export"
  | .emailSender => "email_sender"
  | .bucketWriter => "bucket_writer"
  | .sftpWriter => "sftp_writer"
  | .webhookOutput => "webhook_output"
  | .fileDownload => "file_download"
  | .notify => "notify"
  | .workflowStateGet => "workflow_state_get"
  | .workflowStateSet => "workflow_state_set"

/-- The name of the enum member: the value in upper case. -/
def memberName (t : NodeType) : String := String.ofList (t.value.toList.map Char.toUpper)

/-- `str(node_type)`. `NodeType` is a `(str, Enum)`, and `str` of such a member is the
qualified member name, not its value. -/
def str (t : NodeType) : String := "NodeType." ++ t.memberName

/-- `_NODE_REGISTRY`: the types a node class is registered for. Every member has one. -/
def registry : NodeType → Bool := fun _ => true

/-- `get_node(NodeType(type))` finds a class; otherwise it raises `ValueError`. -/
def getNode (t : NodeType) : Bool := t.registry

@[simp] theorem getNode_eq_true (t : NodeType) : t.getNode = true := rfl

end NodeType

/-! ## Workflow definitions -/

abbrev NodeId := String

structure NodeDefinition where
  id : NodeId
  type : NodeType
  label : String := ""
  config : List (String × Value) := []

structure EdgeDefinition where
  source : NodeId
  target : NodeId
  sourceHandle : Option String := none
  label : Option String := none

structure WorkflowDefinition where
  workflowId : String := ""
  name : String := ""
  userId : String := ""
  ownerType : String := "org"
  ownerId : String := ""
  orgId : String := ""
  deptIds : List String := []
  authorUserId : String := ""
  linkedSmartAppId : Option String := none
  nodes : List NodeDefinition := []
  edges : List EdgeDefinition := []
  vars : Variables := ∅

/-- `bool((node_def.config or {}).get("continue_on_error"))`. -/
def NodeDefinition.continueOnError (n : NodeDefinition) : Bool :=
  (Value.getD n.config "continue_on_error").truthy

/-! ## Executions -/

inductive ExecutionStatus where
  | pending | running | completed | failed | cancelled | timedOut
  | waitingApproval | paused | resuming
  deriving DecidableEq

/-- The string value of the enum member. -/
def ExecutionStatus.value : ExecutionStatus → String
  | .pending => "pending"
  | .running => "running"
  | .completed => "completed"
  | .failed => "failed"
  | .cancelled => "cancelled"
  | .timedOut => "timed_out"
  | .waitingApproval => "waiting_approval"
  | .paused => "paused"
  | .resuming => "resuming"

inductive NodeExecutionStatus where
  | pending | running | completed | failed | skipped | waiting
  deriving DecidableEq

/-- The string value of the enum member. -/
def NodeExecutionStatus.value : NodeExecutionStatus → String
  | .pending => "pending"
  | .running => "running"
  | .completed => "completed"
  | .failed => "failed"
  | .skipped => "skipped"
  | .waiting => "waiting"

structure NodeExecutionResult where
  nodeId : NodeId
  status : NodeExecutionStatus
  outputData : Value := .none
  error : Option String := none
  retryCount : Int := 0
  retryErrors : List String := []

abbrev NodeResults := AList (fun _ : NodeId => NodeExecutionResult)

structure WorkflowExecution where
  executionId : String
  workflowId : String := ""
  userId : String := ""
  status : ExecutionStatus := .pending
  triggerData : List (String × Value) := []
  environment : String := "test"
  currentNode : Option NodeId := none
  pausedAtNode : Option NodeId := none
  approvalId : Option String := none
  nodeResults : NodeResults := ∅
  vars : Variables := ∅
  error : Option String := none
  /-- Seconds since the epoch. -/
  startedAt : Nat := 0

/-- The status field of a stored execution: the endpoints and the scheduler insert `queued`,
which is not a member of `ExecutionStatus`. -/
inductive StoredStatus where
  | queued
  | written (status : ExecutionStatus)
  deriving DecidableEq

/-- The status recorded for a node, if it has a result. -/
def WorkflowExecution.statusOf (e : WorkflowExecution) (nid : NodeId) :
    Option NodeExecutionStatus :=
  (e.nodeResults.lookup nid).map (·.status)

/-! ## Stored workflows -/

inductive WorkflowStatus where
  | draft | deployed | paused
  deriving DecidableEq

/-- The status field of a stored workflow: archive and restore write `inactive` and `active`,
which are not members of `WorkflowStatus`. -/
inductive StoredWorkflowStatus where
  | written (status : WorkflowStatus)
  | inactive
  | active
  deriving DecidableEq

structure ScheduleConfig where
  enabled : Bool := false
  cronExpression : Option String := none
  timezone : String := "America/New_York"
  deriving DecidableEq

/-- What the scheduler, and the operations on a schedule, read of a document of the `Workflows`
collection; `archived` says that its `lifecycle_stage` is `archived`. -/
structure WorkflowDocument where
  workflowId : String
  userId : String := ""
  name : String := ""
  orgId : String := ""
  deptIds : List String := []
  status : StoredWorkflowStatus := .written .draft
  archived : Bool := false
  isActive : Bool := true
  schedule : ScheduleConfig := {}
  deriving DecidableEq

/-! ## Commands -/

/-- How a write to Mongo, Redis or the queue ends; it may have been made although it raises. -/
inductive Write where
  | done
  | failed (ran : Bool)
  deriving DecidableEq

def Write.ok : Write → Bool
  | .done => true
  | .failed _ => false

def Write.ran : Write → Bool
  | .done => true
  | .failed ran => ran

/-! ## The graph of a workflow -/

namespace WorkflowDefinition

/-- `adjacency[nid]`: the targets of the edges leaving `nid`, in edge order. -/
def adjacency (wf : WorkflowDefinition) (nid : NodeId) : List NodeId :=
  (wf.edges.filter (·.source = nid)).map (·.target)

/-- `incoming[nid]`: the sources of the edges entering `nid`, in edge order. -/
def incoming (wf : WorkflowDefinition) (nid : NodeId) : List NodeId :=
  (wf.edges.filter (·.target = nid)).map (·.source)

/-- `{n.id: n for n in workflow.nodes}[nid]`: the last node with that id. -/
def nodeMap (wf : WorkflowDefinition) (nid : NodeId) : Option NodeDefinition :=
  wf.nodes.reverse.find? (·.id = nid)

/-- The keys of the node map, in insertion order. -/
def nodeKeys (wf : WorkflowDefinition) : List NodeId := (wf.nodes.map (·.id)).eraseDups

/-- `set(node_map.keys())`. -/
def nodeIds (wf : WorkflowDefinition) : Finset NodeId := (wf.nodes.map (·.id)).toFinset

/-- The edges from one node to another. -/
def edgesBetween (wf : WorkflowDefinition) (source target : NodeId) : List EdgeDefinition :=
  wf.edges.filter fun e => e.source = source ∧ e.target = target

theorem mem_adjacency {wf : WorkflowDefinition} {p c : NodeId} :
    c ∈ wf.adjacency p ↔ ∃ e ∈ wf.edges, e.source = p ∧ e.target = c := by
  simp [adjacency, and_assoc]

theorem mem_incoming {wf : WorkflowDefinition} {p c : NodeId} :
    p ∈ wf.incoming c ↔ ∃ e ∈ wf.edges, e.target = c ∧ e.source = p := by
  simp [incoming, and_assoc]

/-- The children of `p` are the nodes that have `p` as a parent. -/
theorem mem_adjacency_iff_mem_incoming {wf : WorkflowDefinition} {p c : NodeId} :
    c ∈ wf.adjacency p ↔ p ∈ wf.incoming c := by
  rw [mem_adjacency, mem_incoming]
  constructor
  · rintro ⟨e, he, hs, ht⟩
    exact ⟨e, he, ht, hs⟩
  · rintro ⟨e, he, ht, hs⟩
    exact ⟨e, he, hs, ht⟩

theorem mem_nodeIds {wf : WorkflowDefinition} {nid : NodeId} :
    nid ∈ wf.nodeIds ↔ ∃ n ∈ wf.nodes, n.id = nid := by
  simp [nodeIds]

theorem mem_nodeKeys {wf : WorkflowDefinition} {nid : NodeId} :
    nid ∈ wf.nodeKeys ↔ nid ∈ wf.nodeIds := by
  simp [nodeKeys, nodeIds, List.mem_eraseDups]

theorem nodup_nodeKeys (wf : WorkflowDefinition) : wf.nodeKeys.Nodup :=
  Deduplication.nodup_eraseDups _

/-- The node map has an entry for each node id and for nothing else. -/
theorem nodeMap_isSome_iff {wf : WorkflowDefinition} {nid : NodeId} :
    (wf.nodeMap nid).isSome ↔ nid ∈ wf.nodeIds := by
  simp [nodeMap, mem_nodeIds, List.find?_isSome]

theorem nodeMap_id {wf : WorkflowDefinition} {nid : NodeId} {n : NodeDefinition}
    (h : wf.nodeMap nid = some n) : n.id = nid := by
  simpa using List.find?_some h

theorem nodeMap_mem {wf : WorkflowDefinition} {nid : NodeId} {n : NodeDefinition}
    (h : wf.nodeMap nid = some n) : n ∈ wf.nodes :=
  List.mem_reverse.mp (List.mem_of_find?_eq_some h)

/-- Every edge joins two nodes of the workflow. -/
def EdgesInNodes (wf : WorkflowDefinition) : Prop :=
  ∀ e ∈ wf.edges, e.source ∈ wf.nodeIds ∧ e.target ∈ wf.nodeIds

instance (wf : WorkflowDefinition) : Decidable wf.EdgesInNodes :=
  inferInstanceAs (Decidable (∀ e ∈ wf.edges, _))

theorem EdgesInNodes.adjacency {wf : WorkflowDefinition} (h : wf.EdgesInNodes) {p c : NodeId}
    (hc : c ∈ wf.adjacency p) : c ∈ wf.nodeIds := by
  obtain ⟨e, he, -, rfl⟩ := mem_adjacency.mp hc
  exact (h e he).2

theorem EdgesInNodes.incoming {wf : WorkflowDefinition} (h : wf.EdgesInNodes) {p c : NodeId}
    (hp : p ∈ wf.incoming c) : p ∈ wf.nodeIds := by
  obtain ⟨e, he, -, rfl⟩ := mem_incoming.mp hp
  exact (h e he).1

end WorkflowDefinition

end CitraFlows
