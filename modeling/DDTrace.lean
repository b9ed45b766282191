import DDTrace.Machine
import DDTrace.Tracer.Span
import DDTrace.Tracer.RandSource
import DDTrace.Tracer.RandSourceProgress
import DDTrace.Chan
import DDTrace.Sarama.Message
import DDTrace.Sarama.ProducerSpan
import DDTrace.Sarama.AsyncProducer
import DDTrace.Sarama.AsyncProducerSpans
import DDTrace.Sarama.AsyncProducerDelivery
import DDTrace.Sarama.AsyncProducerShutdown
import DDTrace.Sarama.PartitionConsumer
import DDTrace.Sarama.PartitionConsumerSpans
import DDTrace.Sarama.PartitionConsumerTraces
import DDTrace.Sarama.SyncProducer
import DDTrace.Appsec.Addresses
import DDTrace.Appsec.RegisterWAF
import DDTrace.Appsec.GRPCListener
import DDTrace.Appsec.Monitoring
import DDTrace.Appsec.HTTPListener
import DDTrace.Appsec.GRPCHandler
import DDTrace.Appsec.GRPCListenerRuns
import DDTrace.Appsec.HTTPListenerRuns
import DDTrace.NetHttp.Handlers
import DDTrace.NetHttp.ConcurrentHandler
import DDTrace.NetHttp.ConcurrentServeConfigs
import DDTrace.NetHttp.ConcurrentServeMux
import DDTrace.Graphql.Tracer
