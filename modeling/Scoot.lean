import Scoot.Go
import Scoot.Saga.Log
import Scoot.Saga.Goroutines
import Scoot.Cluster.Loop
import Scoot.Cluster.Close
import Scoot.Cluster.Replica
import Scoot.Worker.Runner
import Scoot.Worker.Handler
import Scoot.Worker.Interleaved
import Scoot.Cas.Server
import Scoot.Cas.Stream
import Scoot.Cas.Requests
import Scoot.Execution.Service
import Scoot.Snapshot.GitDb
